import RuleCatalogue.Markup
import RuleCatalogue.Proofs.Text.Confined

/-!
# What the cleaning of markup does

Prose becomes trimmed text in which brackets stand in tags alone and ampersands begin entities
alone; a line of example code becomes text with entities and no bracket at all.  Both hold of every
line, whatever its brackets, ampersands and backslashes look like.

Prose is converted by one list of replacements that escapes it (`escapes`), by setting the brackets
aside, and by a second list of replacements that writes the tags.  What a single replacement does
to a text is lifted here to lists of them: they leave alone what holds none of the texts replaced,
and they work on both sides of a seam.

The brackets around a default value are dropped in runs of three and then of two, so that what is
left of a run is one bracket or none, as its length tells.  One bracket on each side is the layer
that is unwrapped, and quotes inside it stay; where no bracket is left, the layer of quotes is.

## Main definitions

* `ProseText`: what a converted line of prose is.
* `CodeText`: what a converted line of example code is.
* `decode`: a text with its entities decoded.
* `unquoted` is a value without one layer of quotes.

## Main results

* `proseText_prose`: prose with a character to show becomes a `ProseText`.
* `codeText_code`: any line of code becomes a `CodeText`.
* `decode_code`: decoding gives a converted line of code back, up to backslashes before brackets.
* `replaceEach_append`: replacing on both sides of a seam beside the marks.
* `replaceEach_append_cons`: a character that is never replaced parts a text.
* `replaceEach_of_absent`: a text without an occurrence stays as it is.
* `replaceAll_run_append`: what dropping runs of one length leaves of a longer one.
* `defaultValue_bracketed`: which layer is unwrapped.

## Design notes

Each replacement keeps the text `Confined`.  While prose is converted the set of special
characters grows: first the ampersand, then the brackets, which are set aside and so stand nowhere,
and at last the two marks that they were set aside as.
-/

/-! ## What converted lines hold -/

namespace RuleCatalogue

namespace Text

/-- Replacing pair by pair breaks no unit, if no single pair does. -/
theorem Confined.replaceEach {special : List Char} {units : List (List Char)}
    {pairs : List (List Char × List Char)}
    (hpairs : ∀ pair ∈ pairs, pair.1 ≠ [] ∧ Apart pair.1 units
      ∧ Confined special units pair.2)
    {s : List Char} (h : Confined special units s) :
    Confined special units (Markup.replaceEach pairs s) := by
  induction pairs generalizing s with
  | nil => exact h
  | cons pair pairs ih =>
    obtain ⟨hne, hold, hnew⟩ := hpairs pair List.mem_cons_self
    have hfirst : Confined special units (Text.replaceAll pair.1 pair.2 s) := by
      obtain ⟨_ | ⟨first, more⟩, new⟩ := pair
      · exact absurd rfl hne
      · exact h.replaceAll hold hnew
    exact ih (fun p hp => hpairs p (List.mem_cons_of_mem pair hp)) hfirst

/-- Runs of three, two and one of a mark become units, and the mark is special afterwards. -/
theorem Confined.replaceRuns {special : List Char} {units : List (List Char)} {mark : Char}
    {three two one : List Char} (hmark : ∀ u ∈ units, mark ∉ u) (hthree : three ∈ units)
    (htwo : two ∈ units) (hone : one ∈ units) {s : List Char} (h : Confined special units s) :
    Confined (mark :: special) units
      (Text.replaceAll [mark] one
        (Text.replaceAll [mark, mark] two (Text.replaceAll [mark, mark, mark] three s))) := by
  have hthrees : Apart [mark, mark, mark] units := by simpa [Apart] using hmark
  have htwos : Apart [mark, mark] units := by simpa [Apart] using hmark
  have hruns := (h.replaceAll hthrees (of_unit hthree)).replaceAll htwos (of_unit htwo)
  have hunits : one :: units ⊆ units := List.cons_subset.mpr ⟨hone, List.Subset.refl units⟩
  exact (hruns.replaceAll_singleton hmark).mono (List.Subset.refl _) hunits

/-- Replacements that put in a character of a kind keep a text having one. -/
theorem any_replaceEach {p : Char → Bool} {pairs : List (List Char × List Char)}
    (hpairs : ∀ pair ∈ pairs, pair.2.any p) {s : List Char} (h : s.any p) :
    (Markup.replaceEach pairs s).any p := by
  induction pairs generalizing s with
  | nil => exact h
  | cons pair pairs ih =>
    have hfirst : (Text.replaceAll pair.1 pair.2 s).any p :=
      any_replaceAll (hpairs pair List.mem_cons_self) h
    exact ih (fun q hq => hpairs q (List.mem_cons_of_mem pair hq)) hfirst

end Text

namespace Markup

open Text

/-- The entities that stand for an ampersand and the two brackets. -/
def entities : List (List Char) :=
  ["&amp;".toList, "&lt;".toList, "&gt;".toList]

/-- The tags of italics, bold and code. -/
def tags : List (List Char) :=
  ["<i>".toList, "<b>".toList, "<code>".toList,
   "</i>".toList, "</b>".toList, "</code>".toList]

/-- The characters that are written inside entities and tags alone. -/
def reserved : List Char := ['&', '<', '>']

/-- **Converted prose**: trimmed text to show, in which ampersands and brackets stand in entities
and tags alone, and without the marks of the conversion. -/
structure ProseText (s : List Char) : Prop where
  nonempty : s ≠ []
  trimmed : Trimmed s
  confined : Confined reserved (entities ++ tags) s
  unmarked : openMark ∉ s ∧ closeMark ∉ s

/-- **Converted code**: ampersands begin entities, and there is no bracket. -/
def CodeText (s : List Char) : Prop :=
  Confined reserved entities s

/-- The mark that opens a tag is in no text that the replacements put in. -/
theorem openMark_not_mem : ∀ u ∈ entities ++ tags, openMark ∉ u := by decide

/-- Nor is the one that closes it. -/
theorem closeMark_not_mem : ∀ u ∈ entities ++ tags, closeMark ∉ u := by decide

/-! ## Prose -/

/-- Behind the first replacements every ampersand stands in an entity. -/
theorem confined_escapeProse (s : List Char) : Confined ['&'] entities (escapeProse s) := by
  -- Nothing is special in the line as it was written, so nothing is assumed of it.
  have hpadded : Confined [] [] (' ' :: s ++ [' ']) := .of_not_mem fun _ _ => List.not_mem_nil
  have hampersands : Confined ['&'] ["&amp;".toList]
      (replaceAll ['&'] "&amp;".toList (' ' :: s ++ [' '])) :=
    hpadded.replaceAll_singleton (by decide)
  have hentities := hampersands.mono (List.Subset.refl _)
    (show ["&amp;".toList] ⊆ entities by decide)
  exact hentities.replaceEach (by decide)

/-- Of the reserved characters only the ampersand is not set aside. -/
theorem setAside_not_mem {c : Char} (h : c ∉ ['&']) : setAside c ∉ reserved := by
  rw [setAside]
  split
  · decide
  · split
    · decide
    · simp_all [reserved]

/-- With the emphasis set aside, every reserved character that is left stands in an entity. -/
theorem confined_setAside (s : List Char) :
    Confined reserved entities ((escapeProse s).map setAside) :=
  (confined_escapeProse s).map (by decide) fun _ => setAside_not_mem

/-- Writing the tags keeps them there, and adds the tags to the texts that may hold them. -/
theorem confined_writeTags {s : List Char} (h : Confined reserved entities s) :
    Confined (closeMark :: openMark :: reserved) (entities ++ tags) (writeTags s) := by
  have hunits := h.mono (List.Subset.refl _) (List.subset_append_left entities tags)
  have hopen := hunits.replaceRuns openMark_not_mem (show "<code>".toList ∈ _ by decide)
    (show "<b>".toList ∈ _ by decide) (show "<i>".toList ∈ _ by decide)
  exact hopen.replaceRuns closeMark_not_mem (by decide) (by decide) (by decide)

/-- Text to show stays text to show while it is converted. -/
theorem any_writeTags_escapeProse {s : List Char} (h : s.any (!isBlank ·)) :
    (writeTags ((escapeProse s).map setAside)).any (!isBlank ·) := by
  have hpadded : (' ' :: s ++ [' ']).any (!isBlank ·) := by simp_all
  have hescaped : (escapeProse s).any (!isBlank ·) :=
    any_replaceEach (by decide) (any_replaceAll (by decide) hpadded)
  have haside : ((escapeProse s).map setAside).any (!isBlank ·) := by
    obtain ⟨c, hc, hblank⟩ := List.any_eq_true.mp hescaped
    refine List.any_eq_true.mpr ⟨setAside c, List.mem_map_of_mem hc, ?_⟩
    rw [setAside]
    split
    · decide
    · split
      · decide
      · exact hblank
  exact any_replaceEach (by decide) haside

/-- **Prose converts to prose text**, if there is a character to show; a blank line converts to
nothing, which `ProseText` does not allow. -/
theorem proseText_prose {s : List Char} (h : s.any (!isBlank ·)) : ProseText (prose s) := by
  have hconfined : Confined (closeMark :: openMark :: reserved) (entities ++ tags) (prose s) :=
    (confined_writeTags (confined_setAside s)).trim (by decide)
  have hunmarked {mark : Char} (hspecial : mark ∈ closeMark :: openMark :: reserved)
      (hunits : ∀ u ∈ entities ++ tags, mark ∉ u) : mark ∉ prose s := by
    intro hmem
    obtain ⟨u, hu, hmark⟩ := hconfined.exists_unit_of_mem hmem hspecial
    exact hunits u hu hmark
  refine ⟨?_, trimmed_trim _, hconfined.mono ?_ (List.Subset.refl _),
    hunmarked (by simp) openMark_not_mem, hunmarked (by simp) closeMark_not_mem⟩
  · intro hnil
    obtain ⟨c, hc, hblank⟩ := List.any_eq_true.mp (any_writeTags_escapeProse h)
    rw [trim_eq_nil_iff.mp hnil c hc] at hblank
    exact absurd hblank Bool.false_ne_true
  · intro c hc
    exact List.mem_cons_of_mem _ (List.mem_cons_of_mem _ hc)

/-! ## Code -/

/-- **Any line of code converts to code text**: no bracket is left in it, and every ampersand begins
an entity. -/
theorem codeText_code (s : List Char) : CodeText (code s) := by
  fun_induction code s with
  | case1 => exact .nil
  | case2 rest ih => exact (Confined.of_unit (by decide)).append ih
  | case3 rest ih => exact (Confined.of_unit (by decide)).append ih
  | case4 rest ih => exact (Confined.of_unit (by decide)).append ih
  | case5 rest ih => exact (Confined.of_unit (by decide)).append ih
  | case6 rest ih => exact (Confined.of_unit (by decide)).append ih
  | case7 c rest _ _ hampersand hopen hclose ih =>
    refine .plain ?_ ih
    simp only [reserved, List.mem_cons, List.not_mem_nil, or_false, not_or]
    exact ⟨hampersand, hopen, hclose⟩

/-- **A text with its entities decoded**, in one pass from left to right. -/
def decode : List Char → List Char
  | '&' :: 'a' :: 'm' :: 'p' :: ';' :: rest => '&' :: decode rest
  | '&' :: 'l' :: 't' :: ';' :: rest => '<' :: decode rest
  | '&' :: 'g' :: 't' :: ';' :: rest => '>' :: decode rest
  | c :: rest => c :: decode rest
  | [] => []

/-- Whether a text begins with a bracket. -/
def startsWithBracket (s : List Char) : Bool :=
  s.head? == some '<' || s.head? == some '>'

/-- **A text without the backslashes that stand directly before a bracket**, one for each. -/
def dropEscapes : List Char → List Char
  | [] => []
  | c :: rest =>
      if c = '\\' ∧ startsWithBracket rest then dropEscapes rest else c :: dropEscapes rest

/-- A character that begins no entity is decoded as itself. -/
theorem decode_cons {c : Char} (h : c ≠ '&') (rest : List Char) :
    decode (c :: rest) = c :: decode rest := by
  rw [decode] <;> simp_all

/-- A character is kept unless it is a backslash in front of a bracket. -/
theorem dropEscapes_cons {c : Char} {rest : List Char}
    (h : c = '\\' → startsWithBracket rest = false) :
    dropEscapes (c :: rest) = c :: dropEscapes rest := by
  rw [dropEscapes, if_neg]
  rintro ⟨hc, hrest⟩
  rw [h hc] at hrest
  exact absurd hrest Bool.false_ne_true

/-- **Code survives its conversion**: decoding the entities gives the line back, less one backslash
directly before each bracket.  That backslash escapes the bracket in the source and is dropped with
it, so the exact inverse is of `dropEscapes` and not of the line. -/
theorem decode_code (s : List Char) : decode (code s) = dropEscapes s := by
  fun_induction code s with
  | case1 => rfl
  | case2 rest ih =>
    show '<' :: decode (code rest) = '<' :: dropEscapes rest
    rw [ih]
  | case3 rest ih =>
    show '>' :: decode (code rest) = '>' :: dropEscapes rest
    rw [ih]
  | case4 rest ih =>
    show '&' :: decode (code rest) = '&' :: dropEscapes rest
    rw [ih]
  | case5 rest ih =>
    show '<' :: decode (code rest) = '<' :: dropEscapes rest
    rw [ih]
  | case6 rest ih =>
    show '>' :: decode (code rest) = '>' :: dropEscapes rest
    rw [ih]
  | case7 c rest hescapedOpen hescapedClose hampersand _ _ ih =>
    -- A backslash that is kept has no bracket behind it.
    have hkept : c = '\\' → startsWithBracket rest = false := by
      rintro rfl
      cases rest with
      | nil => rfl
      | cons d rest =>
        have hopen : d ≠ '<' := fun h => hescapedOpen rest rfl (by rw [h])
        have hclose : d ≠ '>' := fun h => hescapedClose rest rfl (by rw [h])
        simp [startsWithBracket, hopen, hclose]
    rw [decode_cons hampersand, dropEscapes_cons hkept, ih]

end Markup

end RuleCatalogue

/-! ## The steps of the conversion -/

namespace RuleCatalogue.Markup

open Text

/-- A test of all characters of a text goes through the text, and never through all characters that
there are. -/
scoped instance (priority := high) decidableForallMem {p : Char → Prop} [DecidablePred p]
    (s : List Char) : Decidable (∀ c ∈ s, p c) :=
  List.decidableBAll p s

scoped instance (priority := high) decidableExistsMem {p : Char → Prop} [DecidablePred p]
    (s : List Char) : Decidable (∃ c ∈ s, p c) :=
  List.decidableBEx p s

variable {pairs : List (List Char × List Char)} {s t : List Char}

/-- The operators between spaces, with their entities. -/
def operatorEscapes : List (List Char × List Char) :=
  spacedOperators.map fun (old, new) => (old.toList, new.toList)

/-- The arrow and the characters that a backslash protects, with what they become. -/
def tokenEscapes : List (List Char × List Char) :=
  escapedTokens.map fun (old, new) => (old.toList, new.toList)

/-- Everything that is escaped in prose, in the order in which it is. -/
def escapes : List (List Char × List Char) :=
  (['&'], "&amp;".toList) :: (operatorEscapes ++ tokenEscapes)

/-- **A text with its ampersands escaped.** -/
def ampersands (s : List Char) : List Char :=
  replaceAll ['&'] "&amp;".toList s

/-- The runs of marks and the tags that they become. -/
def runs : List (List Char × List Char) :=
  emphasisRuns.map fun (run, tag) => (run, tag.toList)

/-- The escaping is a list of replacements made between two added spaces, one after another. -/
theorem escapeProse_eq (s : List Char) :
    escapeProse s = replaceEach escapes (' ' :: s ++ [' ']) := by
  simp only [escapeProse, escapes, operatorEscapes, tokenEscapes, replaceEach, List.foldl_cons,
    List.map_append]

/-- The first replacement is made first, and the others on its result. -/
theorem replaceEach_cons (old new : List Char) (pairs : List (List Char × List Char))
    (s : List Char) :
    replaceEach ((old, new) :: pairs) s = replaceEach pairs (replaceAll old new s) := by
  rw [replaceEach, List.foldl_cons, replaceEach]

/-- Two lists of replacements are made one after the other. -/
theorem replaceEach_append_pairs (first second : List (List Char × List Char)) (s : List Char) :
    replaceEach (first ++ second) s = replaceEach second (replaceEach first s) := by
  rw [replaceEach, List.foldl_append, replaceEach, replaceEach]

/-- The tags are written by replacements as well. -/
theorem writeTags_eq (s : List Char) : writeTags s = replaceEach runs s := by
  rw [writeTags, runs]

/-- What each replacement keeps is kept by all. -/
theorem replaceEach_induction {P : List Char → Prop}
    (step : ∀ pair ∈ pairs, ∀ s, P s → P (replaceAll pair.1 pair.2 s)) (hs : P s) :
    P (replaceEach pairs s) := by
  induction pairs generalizing s with
  | nil => exact hs
  | cons pair pairs ih =>
    exact ih (fun p hp => step p (List.mem_cons_of_mem pair hp))
      (step pair List.mem_cons_self s hs)

/-! ## Ampersands -/

/-- Writing ampersands goes character by character. -/
theorem ampersands_append (s t : List Char) :
    ampersands (s ++ t) = ampersands s ++ ampersands t :=
  replaceAll_singleton_append '&' _ s t

/-- A character that is no ampersand is written as itself. -/
theorem ampersands_cons {c : Char} (hc : c ≠ '&') (rest : List Char) :
    ampersands (c :: rest) = c :: ampersands rest := by
  rw [ampersands, replaceAll_singleton_cons, if_neg hc.symm]
  rfl

/-- A text without ampersands is written as it is. -/
theorem ampersands_of_not_mem {s : List Char} (h : '&' ∉ s) : ampersands s = s := by
  induction s with
  | nil => exact replaceAll_nil _ _
  | cons c rest ih =>
    have hc : c ≠ '&' := fun hamp => h (hamp ▸ List.mem_cons_self)
    rw [ampersands_cons hc, ih fun hmem => h (List.mem_cons_of_mem c hmem)]

/-- Every character written was there or belongs to an entity. -/
theorem mem_of_mem_ampersands {c : Char} (h : c ∈ ampersands s) : c ∈ s ∨ c ∈ "&amp;".toList :=
  mem_of_mem_replaceAll (List.cons_ne_nil _ _) h

/-! ## Occurrences -/

/-- A text in which nothing is to be replaced stays as it is. -/
theorem replaceEach_of_absent (h : ∀ pair ∈ pairs, pair.1 ≠ [] ∧ ¬ pair.1 <:+: s) :
    replaceEach pairs s = s := by
  refine replaceEach_induction (P := (· = s)) ?_ rfl
  rintro pair hpair _ rfl
  exact replaceAll_of_absent (h pair hpair).1 (h pair hpair).2

/-- Replacements whose new texts lack a character never make more of it. -/
theorem count_replaceEach_le {c : Char} (h : ∀ pair ∈ pairs, pair.1 ≠ [] ∧ c ∉ pair.2)
    (s : List Char) : (replaceEach pairs s).count c ≤ s.count c := by
  refine replaceEach_induction (P := (·.count c ≤ s.count c)) ?_ (Nat.le_refl _)
  intro pair hpair t ht
  exact (count_replaceAll_le (h pair hpair).1 (h pair hpair).2).trans ht

/-- Replacements whose old texts lack a character never lose it. -/
theorem mem_replaceEach {c : Char} (h : ∀ pair ∈ pairs, pair.1 ≠ [] ∧ c ∉ pair.1) (hc : c ∈ s) :
    c ∈ replaceEach pairs s := by
  refine replaceEach_induction (P := (c ∈ ·)) ?_ hc
  intro pair hpair t ht
  exact mem_replaceAll (h pair hpair).1 (h pair hpair).2 ht

/-! ## Seams -/

/-- **A character that is never replaced parts a text**: no occurrence of what is replaced reaches
across it, so both sides are replaced by themselves. -/
theorem replaceEach_append_cons {c : Char} (h : ∀ pair ∈ pairs, pair.1 ≠ [] ∧ c ∉ pair.1)
    (s t : List Char) :
    replaceEach pairs (s ++ c :: t) = replaceEach pairs s ++ c :: replaceEach pairs t := by
  induction pairs generalizing s t with
  | nil => rfl
  | cons pair pairs ih =>
    obtain ⟨hold, hc⟩ := h pair List.mem_cons_self
    have hfirst : replaceAll pair.1 pair.2 (s ++ c :: t)
        = replaceAll pair.1 pair.2 s ++ c :: replaceAll pair.1 pair.2 t :=
      replaceAll_append_cons hold hc s t
    exact (congrArg (replaceEach pairs) hfirst).trans
      (ih (fun p hp => h p (List.mem_cons_of_mem pair hp)) _ _)

/-- **Seams beside marks** part a text, if runs of marks alone are replaced and what comes in begins
and ends with none.  The condition on what comes in keeps the seam a seam for the replacements that
follow. -/
theorem replaceEach_append (marks : List Char)
    (h : ∀ pair ∈ pairs, (pair.1 ≠ [] ∧ ∃ mark ∈ marks, ∀ c ∈ pair.1, c = mark)
      ∧ pair.2 ≠ [] ∧ ∀ mark ∈ marks, mark ∉ pair.2.head? ∧ mark ∉ pair.2.getLast?)
    (hseams : ∀ mark ∈ marks, Severed [mark] s t) :
    replaceEach pairs (s ++ t) = replaceEach pairs s ++ replaceEach pairs t := by
  induction pairs generalizing s t with
  | nil => rfl
  | cons pair pairs ih =>
    obtain ⟨⟨hold, mark, hmark, hrun⟩, hnew, hends⟩ := h pair List.mem_cons_self
    have hseam : Severed pair.1 s t :=
      (hseams mark hmark).mono fun c hc => List.mem_singleton.mpr (hrun c hc)
    have hfirst : replaceAll pair.1 pair.2 (s ++ t)
        = replaceAll pair.1 pair.2 s ++ replaceAll pair.1 pair.2 t :=
      replaceAll_append hold hseam
    refine (congrArg (replaceEach pairs) hfirst).trans
      (ih (fun p hp => h p (List.mem_cons_of_mem pair hp)) fun other hother => ?_)
    exact (hseams other hother).replaceAll hold hnew (hends other hother).1 (hends other hother).2

/-- Tags are written in two texts as in each, when no mark is split between them. -/
theorem writeTags_append (hopen : Severed [openMark] s t) (hclose : Severed [closeMark] s t) :
    writeTags (s ++ t) = writeTags s ++ writeTags t := by
  have hruns : ∀ pair ∈ runs,
      (pair.1 ≠ [] ∧ ∃ mark ∈ [openMark, closeMark], ∀ c ∈ pair.1, c = mark) ∧ pair.2 ≠ []
        ∧ ∀ mark ∈ [openMark, closeMark], mark ∉ pair.2.head? ∧ mark ∉ pair.2.getLast? := by
    decide
  refine replaceEach_append [openMark, closeMark] hruns fun mark hmark => ?_
  simp only [List.mem_cons, List.not_mem_nil, or_false] at hmark
  rcases hmark with rfl | rfl
  · exact hopen
  · exact hclose

/-- A text without marks has no tags to write. -/
theorem writeTags_of_not_mem (hopen : openMark ∉ s) (hclose : closeMark ∉ s) :
    writeTags s = s := by
  have hruns : ∀ pair ∈ runs, pair.1 ≠ [] ∧ ∃ mark ∈ [openMark, closeMark], mark ∈ pair.1 := by
    decide
  rw [writeTags_eq]
  refine replaceEach_of_absent fun pair hpair => ?_
  obtain ⟨hne, mark, hmark, hmem⟩ := hruns pair hpair
  refine ⟨hne, fun hpart => ?_⟩
  simp only [List.mem_cons, List.not_mem_nil, or_false] at hmark
  rcases hmark with rfl | rfl
  · exact hopen (hpart.subset hmem)
  · exact hclose (hpart.subset hmem)

end RuleCatalogue.Markup

/-! ## Default values -/

namespace RuleCatalogue

namespace Text

/-- **Dropping runs of one length** leaves the remainder of a longer run: `replaceAll` takes them
from the left and never looks back. -/
theorem replaceAll_run_append {width : Nat} (hwidth : 0 < width) (mark : Char) (n : Nat)
    {rest : List Char} (h : mark ∉ rest) :
    replaceAll (List.replicate width mark) [] (List.replicate n mark ++ rest)
      = List.replicate (n % width) mark ++ rest := by
  have hrun : List.replicate width mark ≠ [] := by simp [Nat.ne_of_gt hwidth]
  -- A run of this length goes at a time, as long as there is one.
  induction n using Nat.strongRecOn with
  | ind n ih =>
    by_cases hn : n < width
    · have hseam : Severed (List.replicate width mark) (List.replicate n mark) rest := by
        refine Or.inr fun c hc hmark => h ?_
        rw [← List.eq_of_mem_replicate hmark]
        exact List.mem_of_mem_head? hc
      have hshort : ¬ List.replicate width mark <:+: List.replicate n mark := by
        intro hpart
        have hlength := hpart.length_le
        rw [List.length_replicate, List.length_replicate] at hlength
        omega
      have hrest : ¬ List.replicate width mark <:+: rest := fun hpart =>
        h (hpart.subset (List.mem_replicate.mpr ⟨Nat.ne_of_gt hwidth, rfl⟩))
      rw [replaceAll_append hrun hseam, replaceAll_of_absent hrun hshort,
        replaceAll_of_absent hrun hrest, Nat.mod_eq_of_lt hn]
    · have hsplit : List.replicate n mark
          = List.replicate width mark ++ List.replicate (n - width) mark := by
        rw [List.replicate_append_replicate, Nat.add_sub_cancel' (Nat.le_of_not_lt hn)]
      have hmod : (n - width) % width = n % width :=
        (Nat.mod_eq_sub_mod (by omega)).symm
      rw [hsplit, List.append_assoc, replaceAll_occurrence hrun, List.nil_append,
        ih (n - width) (by omega), hmod]

end Text

namespace Markup

open Text

variable {v : List Char}

/-- What is left of a run of brackets: one where a single one is left over by threes. -/
theorem replicate_mod (n : Nat) (mark : Char) :
    List.replicate (n % 3 % 2) mark = if n % 3 = 1 then [mark] else [] := by
  have hcases : n % 3 = 0 ∨ n % 3 = 1 ∨ n % 3 = 2 := by omega
  rcases hcases with h | h | h <;> rw [h] <;> rfl

/-- **The marks are dropped** on both sides by the same rule.  They are dropped by threes and then
by twos, so of every run the remainder by three decides what is left: one bracket or none. -/
theorem dropMarks_bracketed (hopen : '<' ∉ v) (hclose : '>' ∉ v) (n : Nat) :
    defaultValueMarks.foldl (fun text mark => replaceAll mark.toList [] text)
        (List.replicate n '<' ++ v ++ List.replicate n '>')
      = if n % 3 = 1 then '<' :: (v ++ ['>']) else v := by
  have hbehind : '<' ∉ v ++ List.replicate n '>' := by
    rw [List.mem_append, not_or]
    exact ⟨hopen, fun h => absurd (List.eq_of_mem_replicate h) (by decide)⟩
  have hbefore : '>' ∉ List.replicate (n % 3 % 2) '<' ++ v := by
    rw [List.mem_append, not_or]
    exact ⟨fun h => absurd (List.eq_of_mem_replicate h) (by decide), hclose⟩
  have hopenings (k width : Nat) (hwidth : 0 < width) :
      replaceAll (List.replicate width '<') []
          (List.replicate k '<' ++ (v ++ List.replicate n '>'))
        = List.replicate (k % width) '<' ++ (v ++ List.replicate n '>') :=
    replaceAll_run_append hwidth '<' k hbehind
  have hclosings (k width : Nat) (hwidth : 0 < width) :
      replaceAll (List.replicate width '>') []
          (List.replicate (n % 3 % 2) '<' ++ v ++ List.replicate k '>')
        = List.replicate (n % 3 % 2) '<' ++ v ++ List.replicate (k % width) '>' := by
    obtain ⟨more, hmore⟩ : ∃ more, List.replicate width '>' = '>' :: more :=
      ⟨List.replicate (width - 1) '>', by rw [← List.replicate_succ, Nat.sub_add_cancel hwidth]⟩
    have hrun := replaceAll_run_append hwidth '>' k List.not_mem_nil
    rw [List.append_nil, List.append_nil] at hrun
    rw [← hrun, hmore]
    exact replaceAll_append_of_not_mem hbefore _
  calc defaultValueMarks.foldl (fun text mark => replaceAll mark.toList [] text)
          (List.replicate n '<' ++ v ++ List.replicate n '>')
      = replaceAll (List.replicate 2 '>') [] (replaceAll (List.replicate 3 '>') []
          (replaceAll (List.replicate 2 '<') [] (replaceAll (List.replicate 3 '<') []
            (List.replicate n '<' ++ (v ++ List.replicate n '>'))))) := by
        rw [List.append_assoc]
        rfl
    _ = List.replicate (n % 3 % 2) '<' ++ v ++ List.replicate (n % 3 % 2) '>' := by
        rw [hopenings n 3 (by decide), hopenings (n % 3) 2 (by decide), ← List.append_assoc,
          hclosings n 3 (by decide), hclosings (n % 3) 2 (by decide)]
    _ = if n % 3 = 1 then '<' :: (v ++ ['>']) else v := by
        rw [replicate_mod, replicate_mod]
        split
        · rfl
        · rw [List.nil_append, List.append_nil]

/-! ## The layer that is unwrapped -/

/-- The characters that quote a value. -/
def quotes : List Char := ['\'', '"', '/']

/-- **A value without one layer of quotes**: where it has two characters or more and begins and ends
with the same quote, both are taken away. -/
def unquoted (v : List Char) : List Char :=
  if 2 ≤ v.length ∧ v.head? = v.getLast? ∧ v.head?.any (· ∈ quotes) then v.tail.dropLast else v

/-- Brackets around a value are taken off, once. -/
theorem unwrap_bracketed (v : List Char) : unwrap ('<' :: (v ++ ['>'])) = v := by
  have hlast : ('<' :: (v ++ ['>'])).getLast? = some '>' :=
    List.getLast?_concat (l := '<' :: v)
  rw [unwrap, if_pos]
  · rw [List.drop_one, List.tail_cons, List.dropLast_concat]
  · simp [defaultValueWrappers, hlast]

/-- Without brackets, quotes are all that can wrap a value. -/
theorem unwrap_of_not_mem (h : '<' ∉ v) : unwrap v = unquoted v := by
  have hhead : v.head? ≠ some '<' := fun hfirst => h (List.mem_of_mem_head? hfirst)
  have hwrapped : (defaultValueWrappers.any fun wrapper =>
        v.head? == some wrapper.1 && v.getLast? == some wrapper.2)
      ↔ v.head? = v.getLast? ∧ v.head?.any (· ∈ quotes) := by
    cases hfirst : v.head? with
    | none => simp [defaultValueWrappers]
    | some c =>
      have hc : c ≠ '<' := fun e => hhead (e ▸ hfirst)
      simp only [defaultValueWrappers, quotes, List.any_cons, List.any_nil]
      grind
  have hunwrap : unwrap v
      = if 2 ≤ v.length && defaultValueWrappers.any fun wrapper =>
          v.head? == some wrapper.1 && v.getLast? == some wrapper.2
        then (v.drop 1).dropLast else v := rfl
  rw [hunwrap, unquoted, List.drop_one]
  simp only [Bool.and_eq_true, decide_eq_true_eq, hwrapped]

/-- **Brackets are dropped around a default value**, and one layer with them: the brackets
themselves where one is left over by threes, and else the quotes.  The value must have no brackets
of its own, or the runs would not end where it begins. -/
theorem defaultValue_bracketed (hopen : '<' ∉ v) (hclose : '>' ∉ v) (n : Nat) :
    defaultValue (List.replicate n '<' ++ v ++ List.replicate n '>')
      = if n % 3 = 1 then v else unquoted v := by
  rw [defaultValue, dropMarks_bracketed hopen hclose]
  split
  · exact unwrap_bracketed v
  · exact unwrap_of_not_mem hopen

/-- Four brackets leave the quotes alone, five do not. -/
theorem defaultValue_bracketed_quoted :
    '<' ∉ "'a'".toList ∧ '>' ∉ "'a'".toList
      ∧ defaultValue "<<<<'a'>>>>".toList = "'a'".toList
      ∧ defaultValue "<<<<<'a'>>>>>".toList = "a".toList := by
  have hopen : '<' ∉ "'a'".toList := by decide
  have hclose : '>' ∉ "'a'".toList := by decide
  exact ⟨hopen, hclose, defaultValue_bracketed hopen hclose 4,
    defaultValue_bracketed hopen hclose 5⟩

end Markup

end RuleCatalogue
