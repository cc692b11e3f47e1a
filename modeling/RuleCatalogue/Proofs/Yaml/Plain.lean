import RuleCatalogue.Proofs.Yaml.Quoted

/-!
# Plain texts are read back

A plain text is read word by word, up to a line that stands no further to the right than the mapping
that holds it.  Lines are broken between words only, and a broken line goes on further to the right.

## Main results

* `plainWord_append`: where a word ends.
* `plainText_foldedChars`: a plain text, with the line end behind it.

## Design notes

The writer decides whether a text is plain by one look at the whole of it (`fitsPlain`), and the
reader where it ends by looking at each gap.  `Wordy` is what the two have in common: words between
single spaces, of which none is an indicator in its place.  The induction on such a text goes by
`Wordy.cases`, a word at a time, since inside a word neither of them folds or stops.
-/

namespace RuleCatalogue.Yaml

variable {indent : Nat} {s after : List Char}

/-! ## Words -/

/-- A text that ends or begins with something: neither a space nor a line end, nor the mark of a
comment, nor a byte order mark. -/
def BeginsWord (s : List Char) : Prop :=
  ∀ c ∈ s.head?, c ≠ ' ' ∧ isBreak c = false ∧ c ≠ '#' ∧ c ≠ '\uFEFF'

theorem takeBreak?_of_beginsWord (h : BeginsWord s) : takeBreak? s = none := by
  cases s with
  | nil => rfl
  | cons c rest => exact takeBreak?_of_not_isBreak (h c rfl).2.1 rest

/-- **A word ends where the text has a gap**, since no colon in it stands before one.
`hasIndicator` is the writer's check, and `plainWord` the reader's rule. -/
theorem plainWord_append {word behind : List Char} {gap : Bool}
    (h : hasIndicator gap (word ++ behind) = false) (hword : ∀ c ∈ word, isGap c = false)
    (hbehind : atGap behind) (hafter : atGap after) :
    plainWord false (word ++ after) = (word, after) := by
  induction word generalizing gap with
  | nil =>
    cases after with
    | nil => rfl
    | cons c after =>
      have hends : endsPlain false c after := by
        rw [endsPlain, show isGap c = true from hafter]
        rfl
      rw [List.nil_append, plainWord, if_pos hends]
  | cons c word ih =>
    have hgap : atGap (word ++ after) = atGap (word ++ behind) := by
      cases word with
      | nil => exact hafter.trans hbehind.symm
      | cons d word => rfl
    simp only [List.cons_append, hasIndicator, Bool.or_eq_false_iff] at h
    obtain ⟨⟨hcolon, -⟩, hrest⟩ := h
    have hends : endsPlain false c (word ++ after) = false := by
      simp [endsPlain, hword c List.mem_cons_self, hgap, hcolon]
    rw [List.cons_append, plainWord, if_neg (by simp [hends]),
      ih hrest fun d hd => hword d (List.mem_cons_of_mem c hd)]

/-! ## Gaps between words -/

theorem wordGap_spaces (n : Nat) (h : BeginsWord after) :
    wordGap (List.replicate n ' ' ++ after)
      = { text := List.replicate n ' ', rest := after } := by
  have hnone : after.takeWhile (· == ' ') = [] := by
    cases after with
    | nil => rfl
    | cons c after => exact List.takeWhile_cons_of_neg (by simp [(h c rfl).1])
  have htake : (List.replicate n ' ' ++ after).takeWhile (· == ' ') = List.replicate n ' ' := by
    rw [List.takeWhile_append_of_pos fun c hc => by rw [List.eq_of_mem_replicate hc]; decide,
      hnone, List.append_nil]
  simp [wordGap, htake, takeBreak?_of_beginsWord h]

theorem moreBreaks_margin (h : BeginsWord after) (width column : Nat) {steps : Nat}
    (hsteps : width < steps) :
    moreBreaks steps column (margin width ++ after) = ([], after, column + width, false) := by
  induction width generalizing column steps with
  | zero =>
    obtain ⟨steps, rfl⟩ : ∃ n, steps = n + 1 := ⟨steps - 1, by omega⟩
    show moreBreaks (steps + 1) column after = _
    unfold moreBreaks
    split
    · next rest => exact absurd rfl (h ' ' rfl).1
    · rw [takeBreak?_of_beginsWord h]
      rfl
  | succ width ih =>
    obtain ⟨steps, rfl⟩ : ∃ n, steps = n + 1 := ⟨steps - 1, by omega⟩
    show moreBreaks steps (column + 1) (margin width ++ after) = _
    rw [ih _ (by omega), Nat.add_right_comm, Nat.add_assoc]

theorem wordGap_line {width : Nat} (h : BeginsWord after)
    (hmark : atDocumentMark (margin width ++ after) = false) :
    wordGap ('\n' :: (margin width ++ after))
      = { text := [' '], rest := after, crossed := true, column := width } := by
  have hlength : width < (margin width ++ after).length + 1 := by
    rw [List.length_append, margin, List.length_replicate]
    omega
  have hfirst : takeBreak? ('\n' :: (margin width ++ after)) = some ('\n', margin width ++ after) :=
    rfl
  have hspaces : ('\n' :: (margin width ++ after)).takeWhile (· == ' ') = [] := rfl
  simp only [wordGap, hspaces, List.length_nil, List.drop_zero, hfirst, hmark,
    moreBreaks_margin h width 0 hlength, Nat.zero_add]
  rfl

/-! ## How plain texts are written -/

theorem foldedChars_plain_cons {c : Char} (hspace : c ≠ ' ') (hbreak : isNewline c = false)
    (first behindSpace behindBreak : Bool) (column : Nat) :
    foldedChars indent ['\''] first behindSpace behindBreak column (c :: s)
      = c :: foldedChars indent ['\''] false false false (column + 1) s := by
  have hwritten : (if c == '\'' then ['\''] else [c]) = [c] := by
    split
    · next hquote => rw [beq_iff_eq.mp hquote]
    · rfl
  rw [foldedChars_cons hspace hbreak, hwritten]
  rfl

theorem foldedChars_word {word : List Char} (hword : ∀ c ∈ word, c ≠ ' ' ∧ isNewline c = false)
    (hne : word ≠ []) (indent : Nat) (s : List Char) (first behindSpace behindBreak : Bool)
    (column : Nat) :
    ∃ next, foldedChars indent ['\''] first behindSpace behindBreak column (word ++ s)
      = word ++ foldedChars indent ['\''] false false false next s := by
  induction word generalizing first behindSpace behindBreak column with
  | nil => exact absurd rfl hne
  | cons c word ih =>
    obtain ⟨hspace, hbreak⟩ := hword c List.mem_cons_self
    rw [List.cons_append, foldedChars_plain_cons hspace hbreak]
    cases word with
    | nil => exact ⟨column + 1, rfl⟩
    | cons d word =>
      obtain ⟨next, hnext⟩ := ih (fun e he => hword e (List.mem_cons_of_mem c he))
        (List.cons_ne_nil _ _) false false false (column + 1)
      exact ⟨next, by rw [hnext]; rfl⟩

/-- Spaces between words are written as they are, or a single one as a line end with a margin. -/
theorem foldedChars_spaces (indent n : Nat) (s : List Char) (column : Nat) :
    ∃ next, foldedChars indent ['\''] false false false column (List.replicate (n + 1) ' ' ++ s)
        = List.replicate (n + 1) ' ' ++ foldedChars indent ['\''] false true false next s
      ∨ n = 0 ∧ foldedChars indent ['\''] false false false column (List.replicate (n + 1) ' ' ++ s)
        = '\n' :: (margin indent ++ foldedChars indent ['\''] false true false next s) := by
  -- Behind a space all spaces are written as they are.
  have hbehind (n column : Nat) :
      ∃ next, foldedChars indent ['\''] false true false column (List.replicate n ' ' ++ s)
        = List.replicate n ' ' ++ foldedChars indent ['\''] false true false next s := by
    induction n generalizing column with
    | zero => exact ⟨column, rfl⟩
    | succ n ih =>
      obtain ⟨next, hnext⟩ := ih (column + 1)
      refine ⟨next, ?_⟩
      rw [List.replicate_succ, List.cons_append, foldedChars, if_pos (by decide)]
      simp [hnext]
  rw [List.replicate_succ, List.cons_append]
  rcases foldedChars_space_cases indent ['\''] false false false column (List.replicate n ' ' ++ s)
    with ⟨c, more, heq, hc, hbroken⟩ | hplain
  · cases n with
    | zero => exact ⟨indent, Or.inr ⟨rfl, hbroken⟩⟩
    | succ n => exact absurd (List.cons.inj heq).1.symm hc
  · obtain ⟨next, hnext⟩ := hbehind n (column + 1)
    exact ⟨next, Or.inl (by rw [hplain, hnext]; rfl)⟩

/-! ## Plain texts -/

/-- **A text of words that may stand without quotes.** -/
structure Wordy (s : List Char) : Prop where
  chars : ∀ c ∈ s, isPlainChar c ∧ isNewline c = false
  nonempty : s ≠ []
  head : s.head? ≠ some ' '
  last : s.getLast? ≠ some ' '
  noIndicator : hasIndicator true s = false

theorem wordy_of_fitsPlain {s : List Char} (h : fitsPlain s) (hne : s ≠ []) : Wordy s := by
  simp only [fitsPlain, fitsSingleQuotes, Bool.and_eq_true, Bool.not_eq_true'] at h
  obtain ⟨⟨⟨⟨⟨⟨⟨⟨hchars, -⟩, -⟩, hnewline⟩, hhead⟩, hlast⟩, -⟩, -⟩, hindicator⟩ := h
  refine ⟨fun c hc => ⟨List.all_eq_true.mp hchars c hc, ?_⟩, hne, ?_, ?_, hindicator⟩
  · exact Bool.eq_false_iff.mpr (List.any_eq_false.mp hnewline c hc)
  · intro e
    rw [e] at hhead
    exact absurd hhead (by decide)
  · intro e
    rw [e] at hlast
    exact absurd hlast (by decide)

theorem hasIndicator_behind_space {gap : Bool} {front : List Char}
    (h : hasIndicator gap (front ++ ' ' :: s) = false) : hasIndicator true s = false := by
  induction front generalizing gap with
  | nil => exact (Bool.or_eq_false_iff.mp h).2
  | cons c front ih => exact ih (Bool.or_eq_false_iff.mp h).2

/-- **A text of words is one word, or a word, spaces and a text of words.** The recursion of the
reader goes along these two cases. -/
theorem Wordy.cases (h : Wordy s) :
    (∀ c ∈ s, c ≠ ' ')
      ∨ ∃ word n next, s = word ++ (List.replicate (n + 1) ' ' ++ next) ∧ word ≠ []
        ∧ (∀ c ∈ word, c ≠ ' ') ∧ Wordy next := by
  obtain ⟨word, behind, rfl, hword, hbehind⟩ := exists_span (· != ' ') s
  have hword' : ∀ c ∈ word, c ≠ ' ' := fun c hc => by simpa using hword c hc
  cases behind with
  | nil => exact Or.inl (by simpa using hword')
  | cons c behind =>
    have hspace : c = ' ' := by simpa using hbehind c rfl
    subst hspace
    obtain ⟨spaces, next, rfl, hspaces, hnext⟩ := exists_span (· == ' ') behind
    have hrun : spaces = List.replicate spaces.length ' ' :=
      List.eq_replicate_of_mem fun c hc => by simpa using hspaces c hc
    have hall : word ++ ' ' :: (spaces ++ next)
        = word ++ (List.replicate (spaces.length + 1) ' ' ++ next) := by
      rw [List.replicate_succ, ← hrun, List.cons_append]
    have hswap : word ++ ' ' :: (spaces ++ next) = (word ++ spaces) ++ ' ' :: next := by
      rw [hall, List.replicate_succ', ← hrun]
      simp
    have hne : next ≠ [] := by
      rintro rfl
      refine h.last ?_
      rw [hswap, List.getLast?_concat]
    refine Or.inr ⟨word, spaces.length, next, hall, ?_, hword',
      fun c hc => h.chars c (by simp [hc]), hne, fun hhead => ?_, fun hlast => h.last ?_, ?_⟩
    · rintro rfl
      exact h.head rfl
    · exact absurd (hnext ' ' hhead) (by decide)
    · rw [hswap, List.append_cons, List.getLast?_append, hlast, Option.some_or]
    · rw [hswap] at h
      exact hasIndicator_behind_space h.noIndicator

/-- Whether a plain text ends with this gap. -/
def WordGap.endsText (gap : WordGap) (indent : Int) : Bool :=
  gap.text.isEmpty || gap.rest.head? == some '#'
    || (gap.crossed && decide (Int.ofNat gap.column < indent))

section Words

variable {column : Int} {word behind lead : List Char} {gap : WordGap}

/-- The last word of a plain text. -/
theorem plainWords_last (hhash : s.head? ≠ some '#') (hword : plainWord false s = (word, behind))
    (hne : word ≠ []) (hgap : wordGap behind = gap) (hends : gap.endsText column) (steps : Nat)
    (crossed : Bool) :
    plainWords false column (steps + 1) lead s crossed = (lead ++ word, gap.rest, gap.crossed) := by
  subst hgap
  have hempty : word.isEmpty = false := by simpa using hne
  rw [plainWords]
  · simp only [hword, hempty]
    exact if_pos hends
  · rintro more rfl
    exact hhash rfl

/-- A word of a plain text, and those behind it. -/
theorem plainWords_next (hhash : s.head? ≠ some '#') (hword : plainWord false s = (word, behind))
    (hne : word ≠ []) (hgap : wordGap behind = gap) (hends : gap.endsText column = false)
    {steps : Nat} {more rest : List Char} {final : Bool}
    (hmore : plainWords false column steps gap.text gap.rest gap.crossed = (more, rest, final))
    (crossed : Bool) :
    plainWords false column (steps + 1) lead s crossed = (lead ++ word ++ more, rest, final) := by
  subst hgap
  have hempty : word.isEmpty = false := by simpa using hne
  rw [plainWords]
  · simp only [hword, hempty, hmore]
    exact if_neg (Bool.eq_false_iff.mp hends)
  · rintro more rfl
    exact hhash rfl

end Words

theorem Wordy.not_isGap (h : Wordy s) {c : Char} (hc : c ∈ s) (hspace : c ≠ ' ') :
    isGap c = false :=
  not_isGap_of_isPlainChar (h.chars c hc).1 hspace (h.chars c hc).2

/-- What is written of a text of words begins with its first character. -/
theorem Wordy.exists_foldedChars_eq (h : Wordy s) (indent : Nat)
    (first behindSpace behindBreak : Bool) (column : Nat) :
    ∃ c more written, s = c :: more
      ∧ foldedChars indent ['\''] first behindSpace behindBreak column s = c :: written
      ∧ BeginsWord (c :: more)
      ∧ (atGap more = false → ∀ rest, atGap (written ++ rest) = false) := by
  obtain ⟨c, more, rfl⟩ := List.exists_cons_of_ne_nil h.nonempty
  obtain ⟨hplain, hbreak⟩ := h.chars c List.mem_cons_self
  have hspace : c ≠ ' ' := fun e => h.head (congrArg some e)
  have hgap := h.not_isGap List.mem_cons_self hspace
  refine ⟨c, more, _, rfl, foldedChars_plain_cons hspace hbreak _ _ _ _, fun d hd => ?_,
    fun hmore rest => ?_⟩
  · cases hd
    refine ⟨hspace, (Bool.or_eq_false_iff.mp hgap).2, ?_, ?_⟩
    · rintro rfl
      exact absurd h.noIndicator (by simp [hasIndicator])
    · rintro rfl
      exact absurd hplain (by decide)
  · cases more with
    | nil => exact absurd hmore (by decide)
    | cons d more =>
      have hd : d ≠ ' ' ∧ isNewline d = false := by
        simp only [atGap, isGap, isSpaceOrTab, isBreak, Bool.or_eq_false_iff,
          beq_eq_false_iff_ne] at hmore
        exact ⟨hmore.1.1, hmore.2.2⟩
      rw [foldedChars_plain_cons hd.1 hd.2]
      exact hmore

/-- What is written of a text of words does not begin a comment. -/
theorem Wordy.head?_foldedChars_ne (h : Wordy s) (indent : Nat)
    (first behindSpace behindBreak : Bool) (column : Nat) (behind : List Char) :
    (foldedChars indent ['\''] first behindSpace behindBreak column s ++ behind).head?
      ≠ some '#' := by
  obtain ⟨c, more, written, -, hwritten, hbegins, -⟩ :=
    h.exists_foldedChars_eq indent first behindSpace behindBreak column
  rw [hwritten]
  exact fun e => (hbegins c rfl).2.2.1 (Option.some.inj e)

/-- A text of one word is the last word of a plain text. -/
theorem plainWords_oneWord {parent width : Nat} (h : Wordy s) (hword : ∀ c ∈ s, c ≠ ' ')
    (hwidth : width ≤ parent) (hafter : BeginsWord after)
    (hmark : atDocumentMark (margin width ++ after) = false) (lead : List Char)
    (crossed first behindSpace behindBreak : Bool) (column steps : Nat) :
    plainWords false (parent + 1) (steps + 1) lead
        (foldedChars indent ['\''] first behindSpace behindBreak column s
          ++ '\n' :: (margin width ++ after)) crossed
      = (lead ++ s, after, true) := by
  have hhash := h.head?_foldedChars_ne indent first behindSpace behindBreak column
    ('\n' :: (margin width ++ after))
  obtain ⟨last, hwritten⟩ := foldedChars_word (fun c hc => ⟨hword c hc, (h.chars c hc).2⟩)
    h.nonempty indent [] first behindSpace behindBreak column
  rw [List.append_nil] at hwritten
  rw [hwritten] at hhash ⊢
  have hindicator : hasIndicator true (s ++ []) = false := by
    rw [List.append_nil, h.noIndicator]
  have hread : plainWord false (s ++ [] ++ '\n' :: (margin width ++ after))
      = (s, '\n' :: (margin width ++ after)) := by
    rw [List.append_nil]
    exact plainWord_append hindicator (fun c hc => h.not_isGap hc (hword c hc)) rfl rfl
  exact plainWords_last hhash hread h.nonempty (wordGap_line hafter hmark)
    (by simp [WordGap.endsText]; omega) steps crossed

/-- A word and the spaces behind it, as they are or as the end of a line, are followed by what is
read of the other words. -/
theorem plainWords_behindSpaces {parent n steps : Nat} {word next behind rest : List Char}
    {final : Bool} (h : Wordy (word ++ (List.replicate (n + 1) ' ' ++ next))) (hne : word ≠ [])
    (hword : ∀ c ∈ word, c ≠ ' ') (hnext : Wordy next) (hindent : parent < indent)
    (hmore : ∀ lead crossed column,
      plainWords false (parent + 1) steps lead
          (foldedChars indent ['\''] false true false column next ++ behind) crossed
        = (lead ++ next, rest, final))
    (lead : List Char) (crossed first behindSpace behindBreak : Bool) (column : Nat) :
    plainWords false (parent + 1) (steps + 1) lead
        (foldedChars indent ['\''] first behindSpace behindBreak column
          (word ++ (List.replicate (n + 1) ' ' ++ next)) ++ behind) crossed
      = (lead ++ (word ++ (List.replicate (n + 1) ' ' ++ next)), rest, final) := by
  have hhash := h.head?_foldedChars_ne indent first behindSpace behindBreak column behind
  have hread (written : List Char) (hwritten : atGap written) :
      plainWord false (word ++ written) = (word, written) :=
    plainWord_append h.noIndicator
      (fun c hc => h.not_isGap (List.mem_append_left _ hc) (hword c hc)) rfl hwritten
  obtain ⟨column', hwritten⟩ := foldedChars_word
    (fun c hc => ⟨hword c hc, (h.chars c (List.mem_append_left _ hc)).2⟩) hne indent
    (List.replicate (n + 1) ' ' ++ next) first behindSpace behindBreak column
  rw [hwritten, List.append_assoc] at hhash ⊢
  obtain ⟨column'', hspaces⟩ := foldedChars_spaces indent n next column'
  obtain ⟨c, more, written, -, hrest, hc, -⟩ :=
    hnext.exists_foldedChars_eq indent false true false column''
  have hbegins : BeginsWord (foldedChars indent ['\''] false true false column'' next
      ++ behind) := by
    rw [hrest]
    exact hc
  rcases hspaces with hplain | ⟨rfl, hbroken⟩
  · rw [hplain, List.append_assoc] at hhash ⊢
    have hends : WordGap.endsText
        { text := List.replicate (n + 1) ' '
          rest := foldedChars indent ['\''] false true false column'' next ++ behind }
        (parent + 1) = false := by
      simp [WordGap.endsText, hrest, (hc c rfl).2.2.1]
    rw [plainWords_next hhash (hread _ rfl) hne (wordGap_spaces (n + 1) hbegins) hends
      (hmore _ _ _), List.append_assoc]
  · have hpos : 0 < indent := by omega
    have hends : WordGap.endsText
        { text := [' ']
          rest := foldedChars indent ['\''] false true false column'' next ++ behind
          crossed := true, column := indent } (parent + 1) = false := by
      simp [WordGap.endsText, hrest, (hc c rfl).2.2.1]
      omega
    rw [hbroken, List.cons_append, List.append_assoc] at hhash ⊢
    rw [plainWords_next hhash (hread _ rfl) hne
      (wordGap_line hbegins (atDocumentMark_margin hpos _)) hends (hmore _ _ _), List.append_assoc]
    rfl

/-- **The words of a plain text are read back**, where the writer has folded the line or not.
`lead` is the gap already read in front of the next word. -/
theorem plainWords_foldedChars {parent width : Nat} (h : Wordy s) (hindent : parent < indent)
    (hwidth : width ≤ parent) (hafter : BeginsWord after)
    (hmark : atDocumentMark (margin width ++ after) = false) (lead : List Char)
    (crossed first behindSpace behindBreak : Bool) (column steps : Nat)
    (hsteps : s.length < steps) :
    plainWords false (parent + 1) steps lead
        (foldedChars indent ['\''] first behindSpace behindBreak column s
          ++ '\n' :: (margin width ++ after)) crossed
      = (lead ++ s, after, true) := by
  induction hlength : s.length using Nat.strongRecOn
    generalizing s lead crossed first behindSpace behindBreak column steps with
  | ind length ih =>
    subst hlength
    obtain ⟨steps, rfl⟩ : ∃ n, steps = n + 1 := ⟨steps - 1, by omega⟩
    rcases h.cases with hword | ⟨word, n, next, rfl, hne, hword, hnext⟩
    · exact plainWords_oneWord h hword hwidth hafter hmark lead crossed first behindSpace
        behindBreak column steps
    · rw [List.length_append, List.length_append, List.length_replicate] at hsteps ih
      exact plainWords_behindSpaces h hne hword hnext hindent
        (fun lead crossed column => ih next.length (by omega) hnext lead crossed false true false
          column steps (by omega) rfl)
        lead crossed first behindSpace behindBreak column

theorem length_le_foldedChars (indent : Nat) (first behindSpace behindBreak : Bool)
    (column : Nat) (s : List Char) :
    s.length ≤ (foldedChars indent ['\''] first behindSpace behindBreak column s).length := by
  induction s generalizing first behindSpace behindBreak column with
  | nil => exact Nat.le_refl 0
  | cons c s ih =>
    by_cases hspace : c = ' '
    · subst hspace
      rcases foldedChars_space_cases indent ['\''] first behindSpace behindBreak column s
        with ⟨-, -, -, -, hbroken⟩ | hplain
      · have hle := ih false true false indent
        simp only [hbroken, List.length_cons, List.length_append]
        omega
      · have hle := ih false true false (column + 1)
        simp only [hplain, List.length_cons]
        omega
    · cases hbreak : isNewline c with
      | false =>
        have hle := ih false false false (column + 1)
        simp only [foldedChars_plain_cons hspace hbreak, List.length_cons]
        omega
      | true =>
        have hle := ih false false true indent
        rw [foldedChars, if_neg (by simpa using hspace), if_pos hbreak]
        simp only [List.length_append, List.length_cons]
        omega

/-- **A plain text is read back**, with the line end behind it and the margin of the next line, as
the reader looks there whether the text goes on. -/
theorem plainText_foldedChars {parent width : Nat} (h : Wordy s) (hindent : parent < indent)
    (hwidth : width ≤ parent) (hafter : BeginsWord after)
    (hmark : atDocumentMark (margin width ++ after) = false) (first behindSpace behindBreak : Bool)
    (column : Nat) :
    plainText false parent
        (foldedChars indent ['\''] first behindSpace behindBreak column s
          ++ '\n' :: (margin width ++ after))
      = (s, after, true) := by
  have hlength := length_le_foldedChars indent first behindSpace behindBreak column s
  exact plainWords_foldedChars h hindent hwidth hafter hmark [] false first behindSpace behindBreak
    column _ (by rw [List.length_append]; omega)

end RuleCatalogue.Yaml
