import RuleCatalogue.Proofs.Text.Substring
import RuleCatalogue.Yaml.Text
import RuleCatalogue.Yaml.Writer

/-!
# Texts between apostrophes are read

A text between quotes is read gap by gap: spaces stay, and the line ends of a gap are folded.  Lines
are broken where a gap folds to the space that stood there, and line feeds are written twice, so
that a text between apostrophes is read back up to one character: the next-line character reads as a
line feed, but is not written twice (`refolded`).

## Main definitions

* `Takes`: a reader takes a text from the beginning of its input.
* `ReadsGaps`: what the readers for the two kinds of quotes have in common.
* `refolded`: what a text between apostrophes reads as.

## Design notes

The readers look at all spaces of a gap at once, the writers at one character at a time.
`Takes.space` reconciles the two, so that the inductions below can go by characters; only the line
ends between apostrophes are taken run by run, since how a run is folded depends on its length.
-/

namespace RuleCatalogue.Yaml

/-! ## Characters -/

/-- **The character that a line end reads as.** -/
def breakChar (c : Char) : Char :=
  if c == '\x85' then '\n' else c

/-- What a line end is to the reader: it is taken as a break, begins no document mark and is no
blank. -/
theorem of_isNewline {c : Char} (h : isNewline c) (rest : List Char) :
    takeBreak? (c :: rest) = some (breakChar c, rest) ∧ c ≠ '-' ∧ c ≠ '.' ∧ ¬ isSpaceOrTab c := by
  simp only [isNewline, Bool.or_eq_true, beq_iff_eq] at h
  rcases h with ((rfl | rfl) | rfl) | rfl <;> exact ⟨rfl, by decide, by decide, by decide⟩

/-- A line end is a gap between the parts of a quoted text. -/
theorem isGap_of_isNewline {c : Char} (h : isNewline c) : isGap c := by
  simp [isGap, isBreak, h]

/-- A blank is a gap between the parts of a quoted text. -/
theorem isGap_of_isSpaceOrTab {c : Char} (h : isSpaceOrTab c) : isGap c := by
  simp [isGap, h]

/-- Only the break characters are taken as breaks. -/
theorem takeBreak?_of_not_isBreak {c : Char} (h : isBreak c = false) (rest : List Char) :
    takeBreak? (c :: rest) = none := by
  obtain ⟨hreturn, hnewline⟩ := Bool.or_eq_false_iff.mp h
  simp only [isNewline, Bool.or_eq_false_iff, beq_eq_false_iff_ne] at hreturn hnewline
  rw [takeBreak?, h]
  · simp [hreturn, hnewline]
  · exact fun _ e => absurd e hreturn

/-- Where no gap begins there is no break to take. -/
theorem takeBreak?_of_atGap {s : List Char} (h : atGap s = false) : takeBreak? s = none := by
  cases s with
  | nil => rfl
  | cons c rest => exact takeBreak?_of_not_isBreak (Bool.or_eq_false_iff.mp h).2 rest

/-- A document mark begins with a hyphen or a full stop, so one look at the first character settles
most cases. -/
theorem atDocumentMark_cons {c : Char} (hdash : c ≠ '-') (hdot : c ≠ '.') (rest : List Char) :
    atDocumentMark (c :: rest) = false := by
  rw [atDocumentMark]
  · exact fun _ e => hdash (List.cons.inj e).1
  · exact fun _ e => hdot (List.cons.inj e).1

/-! ## Gaps -/

variable {indent : Nat} {after : List Char}

/-- Behind a margin that is not empty no document mark can stand: the marks are looked for in the
first column only. -/
theorem atDocumentMark_margin (hindent : 0 < indent) (after : List Char) :
    atDocumentMark (margin indent ++ after) = false := by
  obtain ⟨indent, rfl⟩ : ∃ n, indent = n + 1 := ⟨indent - 1, by omega⟩
  exact atDocumentMark_cons (by decide) (by decide) _

/-- Where no gap begins, the next character is no blank. -/
theorem head?_of_atGap (h : atGap after = false) : ∀ c ∈ after.head?, isSpaceOrTab c = false := by
  intro c hc
  cases after with
  | nil => cases hc
  | cons d rest =>
    cases hc
    exact Bool.eq_false_iff.mpr fun hspace => by
      rw [atGap, isGap_of_isSpaceOrTab hspace] at h
      cases h

/-- The margin of a line is passed over. -/
theorem dropWhile_margin_append (hafter : atGap after = false) :
    (margin indent ++ after).dropWhile isSpaceOrTab = after := by
  rw [List.dropWhile_append_of_pos fun c hc => by rw [List.eq_of_mem_replicate hc]; decide]
  exact Text.dropWhile_of_head (head?_of_atGap hafter)

/-- The breaks of a quoted text and the margin behind them are read as the breaks alone. The steps
only have to exceed the number of breaks; the margin is skipped in one. -/
theorem quotedBreaks_append {breaks : List Char} (h : ∀ c ∈ breaks, isNewline c)
    (hafter : atGap after = false) (hindent : 0 < indent) (steps : Nat)
    (hsteps : breaks.length < steps) :
    quotedBreaks steps (breaks ++ (margin indent ++ after))
      = .ok (breaks.map breakChar, after) := by
  induction breaks generalizing steps with
  | nil =>
    obtain ⟨steps, rfl⟩ : ∃ n, steps = n + 1 := ⟨steps - 1, by simp at hsteps; omega⟩
    simp [quotedBreaks, atDocumentMark_margin hindent, dropWhile_margin_append hafter,
      takeBreak?_of_atGap hafter]
  | cons c breaks ih =>
    obtain ⟨steps, rfl⟩ : ∃ n, steps = n + 1 := ⟨steps - 1, by simp at hsteps; omega⟩
    obtain ⟨htake, hdash, hdot, hspace⟩ :=
      of_isNewline (h c List.mem_cons_self) (breaks ++ (margin indent ++ after))
    rw [quotedBreaks, List.cons_append, atDocumentMark_cons hdash hdot,
      List.dropWhile_cons_of_neg hspace]
    simp only [htake]
    rw [ih (fun d hd => h d (List.mem_cons_of_mem _ hd)) steps (by simp at hsteps; omega)]
    rfl

/-- **A gap with line ends** is folded: one of them is a space, and of more all but the first are
kept. -/
theorem quotedGap_breaks {first : Char} {breaks : List Char} (hfirst : isNewline first)
    (h : ∀ c ∈ breaks, isNewline c) (hafter : atGap after = false) (hindent : 0 < indent) :
    quotedGap (first :: (breaks ++ (margin indent ++ after)))
      = .ok (foldedBreaks (breakChar first) (breaks.map breakChar), after) := by
  obtain ⟨htake, -, -, hspace⟩ := of_isNewline hfirst (breaks ++ (margin indent ++ after))
  rw [quotedGap, List.takeWhile_cons_of_neg hspace]
  have hlength : breaks.length < (breaks ++ (margin indent ++ after)).length + 1 := by
    rw [List.length_append]
    omega
  rw [List.length_nil, List.drop_zero, htake]
  simp only [quotedBreaks_append h hafter hindent _ hlength]
  rfl

/-- **A gap of spaces** stays, when no line end follows; in front of one it would be dropped. -/
theorem quotedGap_spaces (n : Nat) (hafter : atGap after = false) :
    quotedGap (List.replicate n ' ' ++ after) = .ok (List.replicate n ' ', after) := by
  have hnone : after.takeWhile isSpaceOrTab = [] := by
    cases after with
    | nil => rfl
    | cons c rest =>
      exact List.takeWhile_cons_of_neg (by simp [head?_of_atGap hafter c rfl])
  have htake : (List.replicate n ' ' ++ after).takeWhile isSpaceOrTab = List.replicate n ' ' := by
    rw [List.takeWhile_append_of_pos fun c hc => by rw [List.eq_of_mem_replicate hc]; decide,
      hnone, List.append_nil]
  have hne : after ≠ [] := by
    rintro rfl
    exact absurd hafter (by decide)
  simp [quotedGap, htake, takeBreak?_of_atGap hafter, hne]

/-! ## Readers -/

/-- **A reader takes a text from the beginning of its input**, and leaves the rest; any number of
steps that exceeds the length is enough. -/
def Takes (read : Nat → List Char → Except ReadError (List Char × List Char))
    (s text rest : List Char) : Prop :=
  ∀ steps, s.length < steps → read steps s = .ok (text, rest)

/-- **What the readers for the two kinds of quotes have in common**: gaps are read by
`quotedGap`. -/
def ReadsGaps (read : Nat → List Char → Except ReadError (List Char × List Char)) : Prop :=
  ∀ steps c s, isGap c →
    read (steps + 1) (c :: s)
      = (quotedGap (c :: s)).bind fun (gap, after) => prepend gap (read steps after)

/-- Between single quotes the gaps are read by the reader that both quotings share. -/
theorem readsGaps_singleQuoted : ReadsGaps singleQuoted := by
  intro steps c s hc
  have hne : c ≠ '\'' := by
    rintro rfl
    exact absurd hc (by decide)
  rw [singleQuoted, if_pos hc]
  · rfl
  · exact fun _ e => absurd e hne
  · exact hne

/-- Between double quotes as well; the escapes are no gaps. -/
theorem readsGaps_doubleQuoted : ReadsGaps doubleQuoted := by
  intro steps c s hc
  rw [doubleQuoted, if_pos hc]
  · rfl
  · rintro rfl
    exact absurd hc (by decide)
  · rintro rfl
    exact absurd hc (by decide)

variable {read : Nat → List Char → Except ReadError (List Char × List Char)}
  {s text rest : List Char}

/-- A step that takes characters in front of a text. -/
theorem Takes.prepend {more : List Char} (h : Takes read s text rest) (chars : List Char)
    (hlength : s.length < more.length)
    (hstep : ∀ steps, read (steps + 1) more = prepend chars (read steps s)) :
    Takes read more (chars ++ text) rest := by
  intro steps hsteps
  obtain ⟨steps, rfl⟩ : ∃ n, steps = n + 1 := ⟨steps - 1, by omega⟩
  rw [hstep, h steps (by omega)]
  rfl

/-- **Line ends in front of a text are folded**, and the margin is passed over.  `read` is either of
the two readers, by `ReadsGaps`. -/
theorem Takes.breaks (hread : ReadsGaps read) {first : Char} {breaks : List Char}
    (hfirst : isNewline first) (hbreaks : ∀ c ∈ breaks, isNewline c)
    (hafter : atGap after = false) (hindent : 0 < indent) (h : Takes read after text rest) :
    Takes read (first :: (breaks ++ (margin indent ++ after)))
      (foldedBreaks (breakChar first) (breaks.map breakChar) ++ text) rest := by
  refine h.prepend _ (by simp; omega) fun steps => ?_
  rw [hread steps first _ (isGap_of_isNewline hfirst),
    quotedGap_breaks hfirst hbreaks hafter hindent]
  rfl

/-- **Spaces can be taken one by one**, though the reader takes all of them at once; the writer puts
them there one by one. -/
theorem Takes.space (hread : ReadsGaps read) {n : Nat} (hafter : atGap after = false)
    (h : Takes read (List.replicate n ' ' ++ after) text rest) :
    Takes read (List.replicate (n + 1) ' ' ++ after) (' ' :: text) rest := by
  have hstep (m steps : Nat) : read (steps + 1) (List.replicate (m + 1) ' ' ++ after)
      = Yaml.prepend (List.replicate (m + 1) ' ') (read steps after) := by
    have hgap := quotedGap_spaces (m + 1) hafter
    rw [List.replicate_succ, List.cons_append] at hgap ⊢
    rw [hread steps ' ' _ (by decide), hgap]
    rfl
  intro steps hsteps
  obtain ⟨steps, rfl⟩ : ∃ n, steps = n + 1 := ⟨steps - 1, by omega⟩
  rw [List.length_append, List.length_replicate] at hsteps
  cases n with
  | zero =>
    have hall : read steps after = .ok (text, rest) := h steps (by simp; omega)
    rw [hstep, hall]
    rfl
  | succ n =>
    have hall := h (steps + 1) (by simp; omega)
    rw [hstep] at hall ⊢
    cases hafter' : read steps after with
    | error e =>
      rw [hafter'] at hall
      cases hall
    | ok found =>
      rw [hafter'] at hall
      cases hall
      rfl

/-! ## Texts between apostrophes -/

/-- **A text that stands between apostrophes**: it has no special character, and no space at a line
end. -/
structure Foldable (s : List Char) : Prop where
  chars : ∀ c ∈ s, isPlainChar c
  noSpaceBefore : hasPair isSpaceChar isNewline s = false
  noSpaceBehind : hasPair isNewline isSpaceChar s = false

/-- A text without a pair of neighbours has none in its tail, and its first two characters are none.
-/
theorem hasPair_cons {p q : Char → Bool} {c : Char} (h : hasPair p q (c :: s) = false) :
    hasPair p q s = false ∧ (p c → ∀ d ∈ s.head?, q d = false) := by
  cases s with
  | nil => exact ⟨rfl, fun _ _ hd => nomatch hd⟩
  | cons d s =>
    rw [hasPair, Bool.or_eq_false_iff] at h
    refine ⟨h.2, fun hp e he => ?_⟩
    cases he
    simpa [hp] using h.1

/-- What stands behind a run of characters of the first kind is not of the second. -/
theorem not_of_hasPair_run {p q : Char → Bool} {c : Char} {run : List Char}
    (h : hasPair p q (c :: (run ++ s)) = false) (hc : p c) (hrun : ∀ d ∈ run, p d) :
    ∀ d ∈ s.head?, q d = false := by
  induction run generalizing c with
  | nil => exact (hasPair_cons h).2 hc
  | cons d run ih =>
    exact ih (hasPair_cons h).1 (hrun d List.mem_cons_self)
      fun e he => hrun e (List.mem_cons_of_mem d he)

/-- What follows the first character of such a text is such a text. -/
theorem Foldable.tail {c : Char} (h : Foldable (c :: s)) : Foldable s where
  chars d hd := h.chars d (List.mem_cons_of_mem c hd)
  noSpaceBefore := (hasPair_cons h.noSpaceBefore).1
  noSpaceBehind := (hasPair_cons h.noSpaceBehind).1

/-- So is what follows any of its beginnings. -/
theorem Foldable.of_append {front : List Char} (h : Foldable (front ++ s)) : Foldable s := by
  induction front with
  | nil => exact h
  | cons c front ih => exact ih h.tail

/-- **What a text between apostrophes reads as.**  A line end that reads as a line feed is folded,
since only line feeds are written twice; the flag says whether a line end is just before. -/
def refolded : Bool → List Char → List Char
  | _, [] => []
  | behindBreak, c :: rest =>
      if isNewline c then
        (if behindBreak || c != '\x85' then [breakChar c]
          else if rest.head?.any isNewline then [] else [' ']) ++ refolded true rest
      else c :: refolded false rest

/-- A character that is no line end is kept, and ends the run of line ends before it. -/
theorem refolded_cons {c : Char} (h : isNewline c = false) (behindBreak : Bool) (s : List Char) :
    refolded behindBreak (c :: s) = c :: refolded false s := by
  rw [refolded, h, if_neg Bool.false_ne_true]

/-- Whether a line end came before matters only to a line end. -/
theorem refolded_of_head (h : ∀ c ∈ s.head?, isNewline c = false) (behindBreak : Bool) :
    refolded behindBreak s = refolded false s := by
  cases s with
  | nil => rfl
  | cons c s => rw [refolded_cons (h c rfl), refolded_cons (h c rfl)]

/-- Behind a first line end each further one reads as the break it is; only the first is folded. -/
theorem refolded_behindBreak {breaks : List Char} (h : ∀ c ∈ breaks, isNewline c)
    (hs : ∀ c ∈ s.head?, isNewline c = false) :
    refolded true (breaks ++ s) = breaks.map breakChar ++ refolded false s := by
  induction breaks with
  | nil => exact refolded_of_head hs true
  | cons c breaks ih =>
    rw [List.cons_append, refolded, if_pos (h c List.mem_cons_self),
      ih fun d hd => h d (List.mem_cons_of_mem c hd)]
    rfl

/-- A run of line ends is folded, unless it begins with a line feed. -/
theorem refolded_breaks {c : Char} {breaks : List Char} (hc : isNewline c)
    (h : ∀ d ∈ breaks, isNewline d) (hs : ∀ d ∈ s.head?, isNewline d = false) :
    refolded false (c :: (breaks ++ s))
      = (if c = '\n' then c :: breaks.map breakChar
          else foldedBreaks (breakChar c) (breaks.map breakChar)) ++ refolded false s := by
  have hhead : (breaks ++ s).head?.any isNewline = !breaks.isEmpty := by
    cases breaks with
    | nil =>
      cases s with
      | nil => rfl
      | cons d s => exact hs d rfl
    | cons d breaks => exact h d List.mem_cons_self
  rw [refolded, if_pos hc, refolded_behindBreak h hs, hhead, ← List.append_assoc]
  congr 1
  by_cases hnext : c = '\x85'
  · subst hnext
    cases breaks <;> rfl
  · by_cases hfeed : c = '\n'
    · subst hfeed
      rfl
    · simp [hnext, hfeed, breakChar, foldedBreaks]

/-- A text is a stretch of characters of a kind and what stands behind it. -/
theorem exists_span (p : Char → Bool) (s : List Char) :
    ∃ front behind, s = front ++ behind ∧ (∀ c ∈ front, p c) ∧ ∀ c ∈ behind.head?, p c = false := by
  refine ⟨s.takeWhile p, s.dropWhile p, List.takeWhile_append_dropWhile.symm,
    fun c hc => List.mem_takeWhile_imp hc, fun c hc => Text.not_blank_of_mem_head?_dropWhile hc⟩

/-- A plain character that is no space and ends no line is no gap. -/
theorem not_isGap_of_isPlainChar {c : Char} (h : isPlainChar c) (hspace : c ≠ ' ')
    (hbreak : isNewline c = false) : isGap c = false := by
  have htab : c ≠ '\t' := by
    rintro rfl
    exact absurd h (by decide)
  have hreturn : c ≠ '\r' := by
    rintro rfl
    exact absurd h (by decide)
  simp [isGap, isSpaceOrTab, isBreak, hspace, htab, hreturn, hbreak]

/-- A run of line ends is written with the margin behind it, and doubled at its beginning. -/
theorem foldedChars_breaks {c : Char} {breaks : List Char} (hc : isNewline c)
    (h : ∀ d ∈ breaks, isNewline d) (hs : ∀ d ∈ s.head?, isNewline d = false)
    (apostrophe : List Char) (first behindSpace behindBreak : Bool) (column : Nat) :
    foldedChars indent apostrophe first behindSpace behindBreak column (c :: (breaks ++ s))
      = (if c == '\n' && !behindBreak then ['\n'] else [])
        ++ c :: (breaks ++ (margin indent
          ++ foldedChars indent apostrophe false false true indent s)) := by
  have hspace (d : Char) (hd : isNewline d) : ¬ (d == ' ') = true := by
    intro e
    rw [beq_iff_eq.mp e] at hd
    exact absurd hd (by decide)
  induction breaks generalizing c first behindSpace behindBreak column with
  | nil =>
    have hlast : s.head?.any isNewline = false := by
      cases s with
      | nil => rfl
      | cons d s => exact hs d rfl
    rw [List.nil_append, foldedChars, if_neg (hspace c hc), if_pos hc, hlast]
    simp
  | cons b breaks ih =>
    have hb := h b List.mem_cons_self
    rw [foldedChars, if_neg (hspace c hc), if_pos hc, List.cons_append,
      ih hb fun d hd => h d (List.mem_cons_of_mem _ hd)]
    simp [hb]

/-- A character that is neither blank nor line end is written as itself, an apostrophe doubled
between single quotes; the flags of what came before are cleared. -/
theorem foldedChars_cons {c : Char} (hspace : c ≠ ' ') (hbreak : isNewline c = false)
    (apostrophe : List Char) (first behindSpace behindBreak : Bool) (column : Nat) :
    foldedChars indent apostrophe first behindSpace behindBreak column (c :: s)
      = (if c == '\'' then apostrophe else [c])
        ++ foldedChars indent apostrophe false false false
          (column + (if c == '\'' then apostrophe else [c]).length) s := by
  rw [foldedChars, if_neg (by simpa using hspace), if_neg (by simp [hbreak])]

/-- What is written of a text that begins with no gap begins with none. -/
theorem atGap_foldedChars (h : Foldable s)
    (hhead : ∀ c ∈ s.head?, c ≠ ' ' ∧ isNewline c = false) (rest : List Char)
    (first behindSpace behindBreak : Bool) (column : Nat) :
    atGap (foldedChars indent ['\'', '\''] first behindSpace behindBreak column s ++ '\'' :: rest)
      = false := by
  cases s with
  | nil => rfl
  | cons c s =>
    obtain ⟨hspace, hbreak⟩ := hhead c rfl
    have hgap := not_isGap_of_isPlainChar (h.chars c List.mem_cons_self) hspace hbreak
    rw [foldedChars_cons hspace hbreak]
    split
    · rfl
    · exact hgap

/-- Spaces behind a space are written as they are. -/
theorem exists_foldedChars_spaces (h : Foldable (' ' :: s)) (indent column : Nat)
    (rest : List Char) :
    ∃ n after, foldedChars indent ['\'', '\''] false true false column s ++ '\'' :: rest
        = List.replicate n ' ' ++ after
      ∧ atGap after = false := by
  induction s generalizing column with
  | nil => exact ⟨0, '\'' :: rest, rfl, rfl⟩
  | cons c s ih =>
    by_cases hspace : c = ' '
    · subst hspace
      obtain ⟨n, after, hafter, hgap⟩ := ih h.tail (column + 1)
      refine ⟨n + 1, after, ?_, hgap⟩
      rw [foldedChars, if_pos (by decide)]
      simp [hafter, List.replicate_succ]
    · have hbreak : isNewline c = false := (hasPair_cons h.noSpaceBefore).2 rfl c rfl
      refine ⟨0, _, rfl, atGap_foldedChars h.tail (fun d hd => ?_) rest _ _ _ _⟩
      cases hd
      exact ⟨hspace, hbreak⟩

/-- A space is written as it is, or it becomes a line end with a margin before the next word. -/
theorem foldedChars_space_cases (indent : Nat) (apostrophe : List Char)
    (first behindSpace behindBreak : Bool) (column : Nat) (s : List Char) :
    (∃ c more, s = c :: more ∧ c ≠ ' '
        ∧ foldedChars indent apostrophe first behindSpace behindBreak column (' ' :: s)
          = '\n' :: (margin indent ++ foldedChars indent apostrophe false true false indent s))
      ∨ foldedChars indent apostrophe first behindSpace behindBreak column (' ' :: s)
        = ' ' :: foldedChars indent apostrophe false true false (column + 1) s := by
  rw [foldedChars, if_pos (by decide)]
  dsimp only
  split
  · next hbroken =>
    cases s with
    | nil => simp at hbroken
    | cons c more =>
      refine Or.inl ⟨c, more, rfl, ?_, rfl⟩
      rintro rfl
      simp at hbroken
  · exact Or.inr rfl

/-- The text between apostrophes as it is written, with the closing one and what follows. -/
abbrev singleChars (indent : Nat) (first behindSpace behindBreak : Bool) (column : Nat)
    (s rest : List Char) : List Char :=
  foldedChars indent ['\'', '\''] first behindSpace behindBreak column s ++ '\'' :: rest

/-- A space reads back as a space, whether the writer wrote it or broke the line at it. -/
theorem takes_singleChars_space (h : Foldable (' ' :: s)) (hindent : 0 < indent)
    (ih : ∀ column, Takes singleQuoted (singleChars indent false true false column s rest)
      (refolded false s) rest)
    (first behindSpace behindBreak : Bool) (column : Nat) :
    Takes singleQuoted (singleChars indent first behindSpace behindBreak column (' ' :: s) rest)
      (refolded false (' ' :: s)) rest := by
  rw [refolded_cons (show isNewline ' ' = false by decide)]
  rcases foldedChars_space_cases indent ['\'', '\''] first behindSpace behindBreak column
    s with ⟨c, more, rfl, hc, hbroken⟩ | hplain
  · have hgap : atGap (singleChars indent false true false indent (c :: more) rest) = false := by
      refine atGap_foldedChars h.tail (fun d hd => ?_) rest _ _ _ _
      cases hd
      exact ⟨hc, (hasPair_cons h.noSpaceBefore).2 rfl c rfl⟩
    rw [singleChars, hbroken, List.cons_append, List.append_assoc]
    have hnone : ∀ d ∈ [], isNewline d := fun _ hd => nomatch hd
    exact (ih indent).breaks readsGaps_singleQuoted (show isNewline '\n' by decide) hnone hgap
      hindent
  · obtain ⟨n, after, hafter, hgap⟩ := exists_foldedChars_spaces h indent (column + 1) rest
    have hs := ih (column + 1)
    rw [singleChars, hafter] at hs
    rw [singleChars, hplain, List.cons_append, hafter]
    exact hs.space readsGaps_singleQuoted hgap

/-- A run of line ends reads back folded: the writer adds the break that folding takes away only
where the run begins with a line feed. -/
theorem takes_singleChars_breaks {c : Char} {breaks : List Char} (h : Foldable (c :: (breaks ++ s)))
    (hc : isNewline c) (hbreaks : ∀ d ∈ breaks, isNewline d)
    (hs : ∀ d ∈ s.head?, isNewline d = false) (hindent : 0 < indent)
    (ih : Takes singleQuoted (singleChars indent false false true indent s rest)
      (refolded false s) rest)
    (first behindSpace : Bool) (column : Nat) :
    Takes singleQuoted (singleChars indent first behindSpace false column (c :: (breaks ++ s)) rest)
      (refolded false (c :: (breaks ++ s))) rest := by
  have hgap : atGap (singleChars indent false false true indent s rest) = false := by
    refine atGap_foldedChars h.tail.of_append (fun d hd => ⟨?_, hs d hd⟩) rest _ _ _ _
    rintro rfl
    exact absurd (not_of_hasPair_run h.noSpaceBehind hc hbreaks ' ' hd) (by decide)
  rw [singleChars, foldedChars_breaks hc hbreaks hs, ← List.cons_append, List.cons_append,
    refolded_breaks hc hbreaks hs]
  by_cases hfeed : c = '\n'
  · -- A line feed at the beginning is written twice; the first one is dropped again.
    subst hfeed
    have hread := ih.breaks readsGaps_singleQuoted hc (List.forall_mem_cons.mpr ⟨hc, hbreaks⟩) hgap
      hindent
    simpa [foldedBreaks, breakChar] using hread
  · have hread := ih.breaks readsGaps_singleQuoted hc hbreaks hgap hindent
    simpa [hfeed] using hread

/-- Any other character reads back as itself. -/
theorem takes_singleChars_cons {c : Char} (h : Foldable (c :: s)) (hspace : c ≠ ' ')
    (hbreak : isNewline c = false)
    (ih : ∀ column, Takes singleQuoted (singleChars indent false false false column s rest)
      (refolded false s) rest)
    (first behindSpace behindBreak : Bool) (column : Nat) :
    Takes singleQuoted (singleChars indent first behindSpace behindBreak column (c :: s) rest)
      (refolded false (c :: s)) rest := by
  rw [refolded_cons hbreak]
  have hgap := not_isGap_of_isPlainChar (h.chars c List.mem_cons_self) hspace hbreak
  rw [singleChars, foldedChars_cons hspace hbreak, List.append_assoc]
  by_cases hquote : c = '\''
  · subst hquote
    exact (ih (column + 2)).prepend ['\''] (by grind) fun _ => rfl
  · rw [if_neg (by simpa using hquote), List.singleton_append]
    refine (ih (column + 1)).prepend [c] (by simp [singleChars]) fun steps => ?_
    rw [singleQuoted, if_neg (by simp [hgap])]
    · rfl
    · exact fun _ e => absurd e hquote
    · exact hquote

/-- **A text between apostrophes is read**, with its line ends folded.  `Foldable` is what the
writer asks of a text before it chooses this style. -/
theorem takes_singleChars (h : Foldable s) (hindent : 0 < indent)
    (hrest : ∀ c ∈ rest.head?, c ≠ '\'') (first behindSpace : Bool) {behindBreak : Bool}
    (hhead : behindBreak → ∀ c ∈ s.head?, isNewline c = false) (column : Nat) :
    Takes singleQuoted (singleChars indent first behindSpace behindBreak column s rest)
      (refolded false s) rest := by
  induction hlength : s.length using Nat.strongRecOn
    generalizing s first behindSpace behindBreak column with
  | ind length ih =>
    subst hlength
    cases s with
    | nil =>
      intro steps hsteps
      obtain ⟨steps, rfl⟩ : ∃ n, steps = n + 1 := ⟨steps - 1, by omega⟩
      show singleQuoted (steps + 1) ('\'' :: rest) = _
      rw [singleQuoted]
      · rfl
      · rintro more rfl
        exact hrest '\'' rfl rfl
    | cons c s =>
      have hs (behindSpace : Bool) (column : Nat) :
          Takes singleQuoted (singleChars indent false behindSpace false column s rest)
            (refolded false s) rest :=
        ih s.length (by simp) h.tail false behindSpace (fun e : false = true => nomatch e) column
          rfl
      by_cases hspace : c = ' '
      · subst hspace
        exact takes_singleChars_space h hindent (hs true) first behindSpace behindBreak column
      · by_cases hbreak : isNewline c
        · obtain ⟨breaks, behind, rfl, hbreaks, hbehind⟩ := exists_span isNewline s
          cases behindBreak with
          | true => exact absurd hbreak (by simp [hhead rfl c rfl])
          | false =>
            exact takes_singleChars_breaks h hbreak hbreaks hbehind hindent
              (ih behind.length (by grind) h.tail.of_append false false (fun _ => hbehind)
                indent rfl) first behindSpace column
        · exact takes_singleChars_cons h hspace (by simpa using hbreak) (hs false) first behindSpace
            behindBreak column

/-- The writer chooses single quotes only for texts whose line ends have no blank beside them, and
these are the ones that fold back. -/
theorem foldable_of_fitsSingleQuotes {s : List Char} (h : fitsSingleQuotes s) : Foldable s := by
  simp only [fitsSingleQuotes, Bool.and_eq_true, Bool.not_eq_true'] at h
  exact ⟨List.all_eq_true.mp h.1.1, h.1.2, h.2⟩

/-- Only a line end that reads as another one is lost. -/
theorem refolded_eq_self (h : '\x85' ∉ s) (behindBreak : Bool) : refolded behindBreak s = s := by
  induction s generalizing behindBreak with
  | nil => rfl
  | cons c s ih =>
    have hc : c ≠ '\x85' := fun e => h (e ▸ List.mem_cons_self)
    have hs := ih fun hmem => h (List.mem_cons_of_mem c hmem)
    by_cases hbreak : isNewline c
    · simp [refolded, hbreak, hc, hs, breakChar]
    · rw [refolded_cons (by simpa using hbreak), hs]

/-- The reader turns a next-line character into a line feed, so the text read back never holds one.
-/
theorem not_mem_refolded (behindBreak : Bool) (s : List Char) :
    '\x85' ∉ refolded behindBreak s := by
  induction s generalizing behindBreak with
  | nil => exact List.not_mem_nil
  | cons c s ih =>
    have hread : '\x85' ≠ breakChar c := by
      unfold breakChar
      split
      · decide
      · next hc => exact fun e => hc (beq_iff_eq.mpr e.symm)
    by_cases hbreak : isNewline c
    · rw [refolded, if_pos hbreak, List.mem_append]
      rintro (hmem | hmem)
      · split at hmem
        · exact hread (List.mem_singleton.mp hmem)
        · split at hmem <;> simp at hmem
      · exact ih true hmem
    · rw [refolded_cons (by simpa using hbreak), List.mem_cons]
      rintro (rfl | hmem)
      · exact hbreak (by decide)
      · exact ih false hmem

end RuleCatalogue.Yaml
