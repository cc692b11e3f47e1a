import RuleCatalogue.Proofs.Decimal
import RuleCatalogue.Proofs.Yaml.Quoted
import RuleCatalogue.Yaml.Writer

/-!
# Characters of YAML, and texts between double quotes

A text may hold certain characters only, and it holds no value if one of the others occurs.  The
writers keep to them: what is not allowed makes a text stand between double quotes, and is escaped
there by characters that are.

A character that is not written as it is becomes an escape, and a line is broken by a backslash
before the line end, so that neither the line end nor the margin behind it counts.

## Design notes

A broken line that goes on with a space has a backslash before that space.  Whether it is written
is decided a step before the space is: the induction for `takes_doubleText` therefore says of a text
that begins with a space that it is read back behind a backslash as well, as long as the line is
short.
-/

/-! ## What is written may be read -/

namespace RuleCatalogue.Yaml

/-! ## Characters -/

/-- What needs no quotes is allowed in a document. -/
theorem isAllowed_of_isPlainChar {c : Char} (h : isPlainChar c) : isAllowed c := by
  simp only [isPlainChar, isAllowed, Bool.or_eq_true, Bool.and_eq_true, beq_iff_eq,
    decide_eq_true_eq] at h ⊢
  rcases h with (hfeed | hcode) | hcode
  · simp [hfeed]
  · omega
  · omega

/-- What needs no escape is allowed in a document. -/
theorem isAllowed_of_isUnescaped {c : Char} (h : isUnescaped c) : isAllowed c := by
  simp only [isUnescaped, isAllowed, Bool.or_eq_true, Bool.and_eq_true, beq_iff_eq,
    decide_eq_true_eq] at h ⊢
  omega

/-- So are the digits of an escape. -/
theorem isAllowed_of_isDigitOf {c : Char} (h : Decimal.isDigitOf 16 c) : isAllowed c := by
  have hlt : Decimal.digitValue c < 16 := of_decide_eq_true h
  have hbetween {low high : Char} (hc : low ≤ c && c ≤ high) (hlow : 0x20 ≤ low.toNat)
      (hhigh : high.toNat ≤ 0x7E) : isAllowed c := by
    obtain ⟨hbelow, habove⟩ := (Bool.and_eq_true _ _).mp hc
    have hfrom : low.toNat ≤ c.toNat := of_decide_eq_true hbelow
    have hto : c.toNat ≤ high.toNat := of_decide_eq_true habove
    simp [isAllowed, Nat.le_trans hlow hfrom, Nat.le_trans hto hhigh]
  unfold Decimal.digitValue at hlt
  split at hlt
  · next hc => exact hbetween hc (by decide) (by decide)
  · split at hlt
    · next hc => exact hbetween hc (by decide) (by decide)
    · split at hlt
      · next hc => exact hbetween hc (by decide) (by decide)
      · omega

theorem all_margin (indent : Nat) : (margin indent).all isAllowed :=
  List.all_eq_true.mpr fun c hc => by
    rw [List.eq_of_mem_replicate hc]
    decide

/-! ## Texts -/

/-- Words and line ends of a text without special characters are allowed, and the writer adds only
margins and line ends. -/
theorem all_foldedChars {indent : Nat} {apostrophe s : List Char}
    (hapostrophe : apostrophe.all isAllowed) (h : s.all isPlainChar)
    (first behindSpace behindBreak : Bool) (column : Nat) :
    (foldedChars indent apostrophe first behindSpace behindBreak column s).all isAllowed := by
  have hspace : isAllowed ' ' := by decide
  have hfeed : isAllowed '\n' := by decide
  induction s generalizing first behindSpace behindBreak column with
  | nil => rfl
  | cons c s ih =>
    rw [List.all_cons, Bool.and_eq_true] at h
    have hc := isAllowed_of_isPlainChar h.1
    have hs := ih h.2
    rw [foldedChars]
    split
    · dsimp only
      split
      · simp [List.all_append, hfeed, all_margin, hs]
      · simp [hspace, hs]
    · split
      · dsimp only
        split <;> split <;> simp [List.all_append, hfeed, all_margin, hs, hc]
      · dsimp only
        split <;> simp [List.all_append, hapostrophe, hs, hc]

/-- **Any character is allowed once it is escaped.** -/
theorem all_escapeChars (c : Char) : (escapeChars c).all isAllowed := by
  have hbackslash : isAllowed '\\' := by decide
  have hdigits (width : Nat) : (codeDigits width c).all isAllowed := by
    refine List.all_eq_true.mpr fun d hd => ?_
    obtain ⟨e, he, rfl⟩ := List.mem_map.mp hd
    refine isAllowed_of_isDigitOf ?_
    rw [Decimal.isDigitOf, Decimal.digitValue_toUpper]
    exact Decimal.isDigitOf_of_mem_hexDigits he
  unfold escapeChars
  split
  · next letter hletter =>
    have hall : isAllowed letter := by
      unfold escapeLetter? at hletter
      split at hletter <;> cases hletter <;> decide
    simp [hbackslash, hall]
  · split
    · simp [hbackslash, hdigits, show isAllowed 'x' by decide]
    · split
      · simp [hbackslash, hdigits, show isAllowed 'u' by decide]
      · simp [hbackslash, hdigits, show isAllowed 'U' by decide]

/-- Between double quotes every text is written in allowed characters. -/
theorem all_doubleChars (indent : Nat) (first behindEscape : Bool) (column : Nat) (s : List Char) :
    (doubleChars indent first behindEscape column s).all isAllowed := by
  have hline (beforeSpace : Bool) : (brokenLine indent beforeSpace).all isAllowed := by
    rw [brokenLine]
    split <;> simp [all_margin, show isAllowed '\\' by decide, show isAllowed '\n' by decide]
  induction s generalizing first behindEscape column with
  | nil => rfl
  | cons c s ih =>
    rw [doubleChars]
    dsimp only
    split
    · next hc =>
      have hc := isAllowed_of_isUnescaped hc
      split <;> simp [List.all_append, hline, hc, ih]
    · split <;> simp [List.all_append, hline, all_escapeChars, ih]

/-! ## Styles -/

/-- A text is written plain only when it fits, and when the resolver would not take it for another
kind of value. -/
theorem of_styleOf_plain {s : List Char} (h : styleOf s = .plain) :
    fitsPlain s ∧ PlainKind.ofText s = .text := by
  unfold styleOf at h
  split at h
  · next hplain =>
    rw [Bool.and_eq_true] at hplain
    exact ⟨hplain.1, eq_of_beq hplain.2⟩
  · split at h <;> cases h

/-- A text is written between apostrophes only when it fits there. -/
theorem of_styleOf_single {s : List Char} (h : styleOf s = .single) : fitsSingleQuotes s := by
  unfold styleOf at h
  split at h
  · cases h
  · split at h
    · assumption
    · cases h

/-- A text that is not between double quotes has no special character. -/
theorem all_isPlainChar {s : List Char} (h : styleOf s ≠ .double) : s.all isPlainChar := by
  have hfits : fitsSingleQuotes s := by
    cases hstyle : styleOf s with
    | plain =>
      have hplain := (of_styleOf_plain hstyle).1
      simp only [fitsPlain, Bool.and_eq_true] at hplain
      exact hplain.1.1.1.1.1.1
    | single => exact of_styleOf_single hstyle
    | double => exact absurd hstyle h
  simp only [fitsSingleQuotes, Bool.and_eq_true] at hfits
  exact hfits.1.1

/-- **A text is written in characters that may be read**, in each of the three styles. -/
theorem all_textChars (mapping column : Nat) (s : List Char) :
    (textChars mapping column s).all isAllowed := by
  have hspace : isAllowed ' ' := by decide
  have hmark : isAllowed '\'' := by decide
  rw [textChars]
  split
  · next hstyle =>
    have hs : s.all isPlainChar := all_isPlainChar (by simp [hstyle])
    simp [hspace, hmark, all_foldedChars, hs]
  · next hstyle =>
    have hs : s.all isPlainChar := all_isPlainChar (by simp [hstyle])
    simp [List.all_append, hspace, hmark, all_foldedChars, hs]
  · simp [List.all_append, hspace, show isAllowed '"' by decide, all_doubleChars]

/-! ## Catalogues -/

/-- A line of the document is allowed when its lead and its key are; the value is quoted as it
needs. -/
theorem all_fieldLine {lead : List Char} {key : String} (hlead : lead.all isAllowed)
    (hkey : key.toList.all isAllowed) (mapping : Nat) (value : String) :
    (fieldLine mapping lead key value).all isAllowed := by
  simp [fieldLine, List.all_append, hlead, hkey, all_textChars, show isAllowed ':' by decide,
    show isAllowed '\n' by decide]

/-- Lines of a list are allowed when the key and all items are. -/
theorem all_listLines {lead : List Char} {key : String} {items : List (List Char)}
    (hlead : lead.all isAllowed) (hkey : key.toList.all isAllowed)
    (hitems : ∀ item ∈ items, item.all isAllowed) : (listLines lead key items).all isAllowed := by
  have hcolon : (if items.isEmpty then ": []\n" else ":\n").toList.all isAllowed := by
    split <;> decide
  have hall : items.flatten.all isAllowed := by
    rw [List.all_flatten, List.all_eq_true]
    exact hitems
  rw [listLines, List.all_append, List.all_append, List.all_append, hlead, hkey, hcolon, hall]
  rfl

/-- The lines of a parameter are allowed, whatever its texts. -/
theorem all_parameterLines (p : Parameter) : (parameterLines p).all isAllowed := by
  simp only [parameterLines, List.all_append, Bool.and_eq_true]
  exact ⟨⟨all_fieldLine (by decide) (by decide) _ _, all_fieldLine (by decide) (by decide) _ _⟩,
    all_fieldLine (by decide) (by decide) _ _⟩

/-- The lines of a rule are allowed, whatever its texts. -/
theorem all_ruleLines (e : RuleEntry) : (ruleLines e).all isAllowed := by
  have hparameters : ∀ item ∈ e.parameters.toList.map parameterLines, item.all isAllowed := by
    intro item hitem
    obtain ⟨p, -, rfl⟩ := List.mem_map.mp hitem
    exact all_parameterLines p
  simp only [ruleLines, List.all_append, Bool.and_eq_true]
  exact ⟨⟨all_fieldLine (by decide) (by decide) _ _, all_fieldLine (by decide) (by decide) _ _⟩,
    all_listLines (by decide) (by decide) hparameters⟩

/-- **A catalogue is written in characters that may be read**, so the reader does not stop at the
first check that it makes. -/
theorem all_ofCatalogue (c : Catalogue) : (ofCatalogue c).toList.all isAllowed := by
  have hrules : ∀ item ∈ c.sortedEntries.map ruleLines, item.all isAllowed := by
    intro item hitem
    obtain ⟨e, -, rfl⟩ := List.mem_map.mp hitem
    exact all_ruleLines e
  have hversion : ("version: " ++ toString payloadVersion ++ "\n").toList.all isAllowed := by decide
  rw [ofCatalogue, String.toList_ofList, List.all_append, all_listLines rfl (by decide) hrules,
    hversion]
  rfl

end RuleCatalogue.Yaml

/-! ## Texts between double quotes are read back -/

namespace RuleCatalogue.Yaml

variable {indent : Nat} {s text rest after : List Char}

/-! ## Escapes -/

/-- The letter the writer picks for a character is read back as that character. -/
theorem escape?_of_escapeLetter? {c letter : Char} (h : escapeLetter? c = some letter) :
    escape? letter = some c := by
  unfold escapeLetter? at h
  split at h <;> cases h <;> rfl

/-- A character is no half of a surrogate pair, so its code is never joined with the next. -/
theorem paired?_toNat (c : Char) (s : List Char) : paired? c.toNat s = none := by
  have hhigh : Text.Surrogate.isHigh c.toNat = false :=
    (Bool.or_eq_false_iff.mp (Text.Surrogate.isEither_toNat c)).1
  unfold paired?
  split
  · next letter rest =>
    cases codeLength? letter with
    | none => rfl
    | some length => cases Decimal.hexValue? (rest.take length) <;> simp [hhigh]
  · rfl

/-- The code of a character is read as the character. -/
theorem charOfCode_toNat (c : Char) : charOfCode c.toNat = .ok c := by
  have hlt := Text.Surrogate.toNat_lt c
  rw [charOfCode, if_neg (by omega), if_neg (by omega), Text.Surrogate.isEither_toNat,
    if_neg (by decide), Char.ofNat_toNat]

/-- **A code point that was written is read.** `hlt` says that the digits are enough, and `hletter`
that the letter before them is not an escape by itself. -/
theorem escape_codeDigits {c letter : Char} {width : Nat} (hletter : escape? letter = none)
    (hwidth : codeLength? letter = some width) (hpos : 0 < width) (hlt : c.toNat < 16 ^ width)
    (s : List Char) : escape (letter :: (codeDigits width c ++ s)) = .ok ([c], s) := by
  have hlength : (codeDigits width c).length = width := by
    rw [codeDigits, List.length_map, Decimal.length_hexDigits hpos hlt]
  have hvalue : Decimal.hexValue? (codeDigits width c) = some c.toNat := by
    rw [codeDigits, Decimal.hexValue?_map_toUpper, Decimal.hexValue?_hexDigits]
  have htake : (codeDigits width c ++ s).take width = codeDigits width c := by
    rw [List.take_append_of_le_length (by omega), List.take_of_length_le (by omega)]
  have hdrop : (codeDigits width c ++ s).drop width = s := by
    rw [List.drop_append_of_le_length (by omega), List.drop_of_length_le (by omega),
      List.nil_append]
  have henough : ¬ (codeDigits width c ++ s).length < width := by
    rw [List.length_append]
    omega
  simp only [escape, hletter, hwidth, htake, hdrop, hvalue, henough, paired?_toNat,
    charOfCode_toNat, if_false]
  rfl

/-- **An escape that was written is read**, by its letter where it has one, and else by its code in
two, four or eight digits. -/
theorem exists_escapeChars_eq (c : Char) :
    ∃ chars, escapeChars c = '\\' :: chars ∧ ∀ s, escape (chars ++ s) = .ok ([c], s) := by
  unfold escapeChars
  split
  · next letter hletter =>
    refine ⟨[letter], rfl, fun s => ?_⟩
    rw [List.singleton_append, escape, escape?_of_escapeLetter? hletter]
  · split
    · next hle =>
      exact ⟨_, rfl, escape_codeDigits rfl rfl (by decide) (by omega)⟩
    · split
      · next hle =>
        exact ⟨_, rfl, escape_codeDigits rfl rfl (by decide) (by omega)⟩
      · have hlt := Text.Surrogate.toNat_lt c
        exact ⟨_, rfl, escape_codeDigits rfl rfl (by decide) (by omega)⟩

/-- An escape reads as what it stands for, when what it leaves is no longer than what it was given:
the steps are counted in characters. -/
theorem Takes.escape {chars escaped : List Char} (h : Takes doubleQuoted s text rest)
    (hescape : Yaml.escape escaped = .ok (chars, s)) (hlength : s.length ≤ escaped.length) :
    Takes doubleQuoted ('\\' :: escaped) (chars ++ text) rest := by
  refine h.prepend chars (by rw [List.length_cons]; omega) fun steps => ?_
  rw [doubleQuoted, hescape]
  rfl

/-- A line end behind a backslash is passed over, with the margin. -/
theorem Takes.brokenLine (h : Takes doubleQuoted after text rest) (hafter : atGap after = false)
    (hindent : 0 < indent) :
    Takes doubleQuoted ('\\' :: '\n' :: (margin indent ++ after)) text rest := by
  have hnone : ∀ d ∈ [], isNewline d := fun _ hd => nomatch hd
  have hescape : Yaml.escape ('\n' :: (margin indent ++ after)) = .ok ([], after) :=
    quotedBreaks_append hnone hafter hindent _ (Nat.zero_lt_succ _)
  exact h.escape hescape (by simp; omega)

/-- A space behind a backslash reads as a space and is not taken for the margin of a folded line. -/
theorem Takes.escapedSpace (h : Takes doubleQuoted s text rest) :
    Takes doubleQuoted ('\\' :: ' ' :: s) (' ' :: text) rest := by
  have hescape : Yaml.escape (' ' :: s) = .ok ([' '], s) := rfl
  exact h.escape hescape (by simp)

/-- A character that is written as it is, and no space, is neither a gap nor a mark. -/
theorem of_isUnescaped {c : Char} (h : isUnescaped c) (hspace : c ≠ ' ') :
    isGap c = false ∧ c ≠ '"' ∧ c ≠ '\\' := by
  have hne (d : Char) (hd : isUnescaped d = false) : c ≠ d := by
    rintro rfl
    rw [h] at hd
    cases hd
  refine ⟨?_, hne '"' (by decide), hne '\\' (by decide)⟩
  simp [isGap, isSpaceOrTab, isBreak, isNewline, hspace, hne '\t' (by decide),
    hne '\r' (by decide), hne '\n' (by decide), hne '\x85' (by decide), hne '\u2028' (by decide),
    hne '\u2029' (by decide)]

/-- A character that needs no escape reads as itself.  A space needs none either, but is read with
the gap it begins, hence the second hypothesis. -/
theorem Takes.unescaped {c : Char} (hc : isUnescaped c) (hspace : c ≠ ' ')
    (h : Takes doubleQuoted s text rest) : Takes doubleQuoted (c :: s) (c :: text) rest := by
  obtain ⟨hgap, hquote, hbackslash⟩ := of_isUnescaped hc hspace
  refine h.prepend [c] (by simp) fun steps => ?_
  rw [doubleQuoted, if_neg (by simp [hgap])]
  · exact hquote
  · exact hbackslash

/-- The text between double quotes as it is written, with the closing one and what follows. -/
abbrev doubleText (indent : Nat) (first behindEscape : Bool) (column : Nat) (s rest : List Char) :
    List Char :=
  doubleChars indent first behindEscape column s ++ '"' :: rest

/-- A character is written as it is, behind a line end where the line is long. -/
theorem doubleText_unescaped {c : Char} (hc : isUnescaped c) (indent : Nat)
    (first behindEscape : Bool) (column : Nat) (s rest : List Char) :
    (lineWidth < column ∧ ∃ next, doubleText indent first behindEscape column (c :: s) rest
        = '\\' :: '\n' :: (margin indent
          ++ ((if c == ' ' then ['\\'] else []) ++ c :: doubleText indent false false next s rest)))
      ∨ doubleText indent first behindEscape column (c :: s) rest
        = c :: doubleText indent false false (column + 1) s rest := by
  rw [doubleText, doubleChars, if_pos hc]
  dsimp only
  split
  · next hbroken =>
    simp only [Bool.and_eq_true, decide_eq_true_eq] at hbroken
    exact Or.inl ⟨hbroken.2, (brokenLine indent (c == ' ')).length - 1, by simp [brokenLine]⟩
  · exact Or.inr rfl

/-- A character is escaped, with a line end behind it where the line is long. -/
theorem doubleText_escaped {c : Char} (hc : isUnescaped c = false) (indent : Nat)
    (first behindEscape : Bool) (column : Nat) (s rest : List Char) :
    (∃ next, next ≤ indent + 1 ∧ doubleText indent first behindEscape column (c :: s) rest
        = escapeChars c ++ '\\' :: '\n' :: (margin indent
          ++ ((if s.head? == some ' ' then ['\\'] else [])
            ++ doubleText indent false true next s rest)))
      ∨ ∃ next, doubleText indent first behindEscape column (c :: s) rest
        = escapeChars c ++ doubleText indent false true next s rest := by
  rw [doubleText, doubleChars, if_neg (by simp [hc])]
  dsimp only
  split
  · refine Or.inl ⟨(brokenLine indent (s.head? == some ' ')).length - 2, ?_,
      by simp [brokenLine]⟩
    rw [brokenLine]
    split
    · simp [margin]
    · simp [margin]
  · exact Or.inr ⟨column + (escapeChars c).length, by simp⟩

/-- Only a space is written as a gap. -/
theorem atGap_doubleText (hs : ∀ c ∈ s.head?, c ≠ ' ') (indent : Nat) (first behindEscape : Bool)
    (column : Nat) (rest : List Char) :
    atGap (doubleText indent first behindEscape column s rest) = false := by
  cases s with
  | nil => rfl
  | cons c s =>
    by_cases hc : isUnescaped c
    · rcases doubleText_unescaped hc indent first behindEscape column s rest
        with ⟨-, next, hbroken⟩ | hplain
      · rw [hbroken]
        rfl
      · rw [hplain]
        exact (of_isUnescaped hc (hs c rfl)).1
    · obtain ⟨chars, hchars, -⟩ := exists_escapeChars_eq c
      rcases doubleText_escaped (by simpa using hc) indent first behindEscape column s rest
        with ⟨next, -, hbroken⟩ | ⟨next, hplain⟩
      · rw [hbroken, hchars]
        rfl
      · rw [hplain, hchars]
        rfl

/-- Spaces are followed by no gap. -/
theorem exists_doubleText_spaces (indent : Nat) (first behindEscape : Bool) (column : Nat)
    (s rest : List Char) :
    ∃ n after, doubleText indent first behindEscape column s rest = List.replicate n ' ' ++ after
      ∧ atGap after = false := by
  induction s generalizing first behindEscape column with
  | nil => exact ⟨0, '"' :: rest, rfl, rfl⟩
  | cons c s ih =>
    by_cases hspace : c = ' '
    · subst hspace
      rcases doubleText_unescaped (c := ' ') (by decide) indent first behindEscape column s rest
        with ⟨-, next, hbroken⟩ | hplain
      · exact ⟨0, _, hbroken, rfl⟩
      · obtain ⟨n, after, hafter, hgap⟩ := ih false false (column + 1)
        exact ⟨n + 1, after, by rw [hplain, hafter, List.replicate_succ, List.cons_append], hgap⟩
    · refine ⟨0, _, rfl, atGap_doubleText (fun d hd => ?_) _ _ _ _ _⟩
      cases hd
      exact hspace

/-- **A text between double quotes is read back**, also behind a backslash that was written because
the text begins with a space.  The second half is for the folding of long lines, where the writer
escapes the space it begins a line with. -/
theorem takes_doubleText (hindent : 0 < indent) (hroom : indent + 1 ≤ lineWidth)
    (first behindEscape : Bool) (column : Nat) :
    Takes doubleQuoted (doubleText indent first behindEscape column s rest) s rest
      ∧ (s.head? = some ' ' → column ≤ lineWidth →
        Takes doubleQuoted ('\\' :: doubleText indent first behindEscape column s rest) s
          rest) := by
  induction s generalizing first behindEscape column with
  | nil =>
    refine ⟨fun steps hsteps => ?_, fun e => nomatch e⟩
    obtain ⟨steps, rfl⟩ : ∃ n, steps = n + 1 := ⟨steps - 1, by omega⟩
    rfl
  | cons c s ih =>
    by_cases hspace : c = ' '
    · subst hspace
      rcases doubleText_unescaped (c := ' ') (by decide) indent first behindEscape column s rest
        with ⟨hlong, next, hbroken⟩ | hplain
      · rw [hbroken]
        refine ⟨(ih false false next).1.escapedSpace.brokenLine rfl hindent, fun _ hshort => ?_⟩
        exact absurd hlong (Nat.not_lt.mpr hshort)
      · have hread := (ih false false (column + 1)).1
        rw [hplain]
        refine ⟨?_, fun _ _ => hread.escapedSpace⟩
        obtain ⟨n, after, hafter, hgap⟩ :=
          exists_doubleText_spaces indent false false (column + 1) s rest
        rw [hafter] at hread ⊢
        exact hread.space readsGaps_doubleQuoted hgap
    · refine ⟨?_, fun e => absurd (Option.some.inj e) hspace⟩
      by_cases hc : isUnescaped c
      · rcases doubleText_unescaped hc indent first behindEscape column s rest
          with ⟨-, next, hbroken⟩ | hplain
        · rw [hbroken, if_neg (by simpa using hspace), List.nil_append]
          exact ((ih false false next).1.unescaped hc hspace).brokenLine
            (of_isUnescaped hc hspace).1 hindent
        · rw [hplain]
          exact (ih false false (column + 1)).1.unescaped hc hspace
      · obtain ⟨chars, hchars, hescape⟩ := exists_escapeChars_eq c
        rcases doubleText_escaped (by simpa using hc) indent first behindEscape column s rest
          with ⟨next, hnext, hbroken⟩ | ⟨next, hplain⟩
        · rw [hbroken, hchars, List.cons_append]
          refine Takes.escape ?_ (hescape _) (by simp)
          split
          · next hhead =>
            exact ((ih false true next).2 (by simpa using hhead) (by omega)).brokenLine rfl hindent
          · next hhead =>
            refine (ih false true next).1.brokenLine (atGap_doubleText (fun d hd => ?_) _ _ _ _ _)
              hindent
            rintro rfl
            exact hhead (by simpa using hd)
        · rw [hplain, hchars, List.cons_append]
          exact (ih false true next).1.escape (hescape _) (by simp)

end RuleCatalogue.Yaml
