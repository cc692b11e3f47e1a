import Mathlib.Data.List.Chain
import RuleCatalogue.Proofs.Markup

/-!
# Prose word by word

Spaces part a line for every step of its conversion but one: an operator is found together with the
spaces around it, and the next search for the same operator goes on behind the second space.  So an
operator that stands directly behind the same operator is missed if that one was found, and its
brackets become tags like those of any other word.

## Main definitions

* `convertWords` converts a list of words; what it carries along is the operator that has just taken
  the space before the next word.

## Main statements

* `prose_eq_convertWords`: any line is converted word by word in this sense.
* `prose_intercalate`: what words joined by spaces convert to, and when each of them converts as it
  does alone.

## Design notes

The words of a line are kept with one space in front of all and one behind each (`spaced`), since
that is how the line is padded for the search.  The search for one operator is then a walk over the
words (`replaceAll_operator`); walking once for each operator is walking once for all of them
(`escapeOperators_singleton`), because the space that one operator has taken is only missed by the
same one.
-/

namespace RuleCatalogue.Markup

open Text

/-- **The operators** that are not emphasis when spaces surround them. -/
def operators : List (List Char) :=
  ["<=>", "<<<=", ">>>=", "<<=", ">>=", "<=", ">=", "<", ">"].map String.toList

/-- The replacements of the operators find them between spaces and leave the spaces there, which is
why neighbours share one. -/
theorem operatorEscapes_eq :
    operatorEscapes = operators.map fun op => (' ' :: op ++ [' '], ' ' :: code op ++ [' ']) := by
  decide

/-- **A word that is no operator**: ampersands, arrows and protected characters are escaped, and
brackets are emphasis. -/
def convertWord (w : List Char) : List Char :=
  writeTags ((replaceEach tokenEscapes (ampersands w)).map setAside)

/-- **The words of a line as they are converted.**  An operator becomes entities, unless the same
operator has taken the space before it; `taken` is the operator that has taken that space. -/
def convertWords (taken : Option (List Char)) : List (List Char) → List (List Char)
  | [] => []
  | w :: rest =>
      if w ∈ operators ∧ taken ≠ some w then code w :: convertWords (some w) rest
      else convertWord w :: convertWords none rest

/-- Conversion is word by word, so words stay words. -/
theorem convertWords_ne_nil {taken : Option (List Char)} {words : List (List Char)}
    (h : words ≠ []) : convertWords taken words ≠ [] := by
  obtain ⟨w, rest, rfl⟩ := List.exists_cons_of_ne_nil h
  rw [convertWords]
  split
  · exact List.cons_ne_nil _ _
  · exact List.cons_ne_nil _ _

/-! ## Words between spaces -/

/-- The words with a space behind each. -/
def spaced (words : List (List Char)) : List Char :=
  words.flatMap (· ++ [' '])

theorem spaced_cons (w : List Char) (rest : List (List Char)) :
    spaced (w :: rest) = w ++ ' ' :: spaced rest := by
  simp [spaced]

theorem spaced_eq {words : List (List Char)} (h : words ≠ []) :
    spaced words = [' '].intercalate words ++ [' '] := by
  induction words with
  | nil => exact absurd rfl h
  | cons w rest ih =>
    cases rest with
    | nil => simp [spaced, List.intercalate]
    | cons v more => rw [spaced_cons, ih (List.cons_ne_nil _ _), List.intercalate_cons_cons]; simp

/-- **A step that works on both sides of a space** works on every word.  `hparts` is what each of
the steps of the conversion has been shown to do. -/
theorem map_spaced {f : List Char → List Char} (hnil : f [] = [])
    (hparts : ∀ s t, f (s ++ ' ' :: t) = f s ++ ' ' :: f t) (words : List (List Char)) :
    f (' ' :: spaced words) = ' ' :: spaced (words.map f) := by
  have hspaced : f (spaced words) = spaced (words.map f) := by
    induction words with
    | nil => exact hnil
    | cons w rest ih => rw [spaced_cons, hparts, ih, List.map_cons, spaced_cons]
  have hlead := hparts [] (spaced words)
  rw [List.nil_append, hnil, hspaced] at hlead
  exact hlead

/-- The ampersands of spaced words are those of the words. -/
theorem ampersands_spaced (words : List (List Char)) :
    ampersands (' ' :: spaced words) = ' ' :: spaced (words.map ampersands) := by
  refine map_spaced (ampersands_of_not_mem List.not_mem_nil) (fun s t => ?_) words
  rw [ampersands_append, ampersands_cons (by decide)]

/-- Setting emphasis aside leaves the spaces alone. -/
theorem map_setAside_spaced (words : List (List Char)) :
    (' ' :: spaced words).map setAside = ' ' :: spaced (words.map (·.map setAside)) := by
  refine map_spaced (f := List.map setAside) rfl (fun s t => ?_) words
  rw [List.map_append, List.map_cons]
  rfl

/-- Replacements whose old texts have no space act on each word by itself. -/
theorem replaceEach_spaced {pairs : List (List Char × List Char)}
    (h : ∀ pair ∈ pairs, pair.1 ≠ [] ∧ ' ' ∉ pair.1) (words : List (List Char)) :
    replaceEach pairs (' ' :: spaced words) = ' ' :: spaced (words.map (replaceEach pairs)) := by
  refine map_spaced (replaceEach_of_absent fun pair hpair => ?_) (replaceEach_append_cons h) words
  have hne : pair.1 ≠ [] := (h pair hpair).1
  exact ⟨hne, fun hpart => hne (List.eq_nil_of_infix_nil hpart)⟩

/-! ## Escaping operators -/

/-- **Escaping some operators in one walk over the words.**  An operator is missed where the same
operator has taken the space before it. -/
def escapeOperators (ops : List (List Char)) (taken : Option (List Char)) :
    List (List Char) → List (List Char)
  | [] => []
  | w :: rest =>
      if w ∈ ops ∧ taken ≠ some w then code w :: escapeOperators ops (some w) rest
      else w :: escapeOperators ops none rest

/-- Without operators nothing is escaped. -/
theorem escapeOperators_nil (taken : Option (List Char)) (words : List (List Char)) :
    escapeOperators [] taken words = words := by
  induction words generalizing taken with
  | nil => rfl
  | cons w rest ih => rw [escapeOperators, if_neg fun h => List.not_mem_nil h.1, ih]

/-- A space that another word has taken is free. -/
theorem escapeOperators_of_free {ops : List (List Char)} {taken : Option (List Char)}
    (h : ∀ op ∈ ops, taken ≠ some op) (words : List (List Char)) :
    escapeOperators ops taken words = escapeOperators ops none words := by
  cases words with
  | nil => rfl
  | cons w rest =>
    have hfree : w ∈ ops ∧ taken ≠ some w ↔ w ∈ ops ∧ none ≠ some w :=
      and_congr_right fun hw => iff_of_true (h w hw) nofun
    rw [escapeOperators, escapeOperators]
    simp only [hfree]

/-- What holds of the words and of the escaped operators holds of all words afterwards. -/
theorem forall_mem_escapeOperators {P : List Char → Prop} {ops : List (List Char)}
    (hcode : ∀ op ∈ ops, P (code op)) {taken : Option (List Char)} {words : List (List Char)}
    (h : ∀ w ∈ words, P w) : ∀ w ∈ escapeOperators ops taken words, P w := by
  induction words generalizing taken with
  | nil => exact h
  | cons v rest ih =>
    have hrest : ∀ w ∈ rest, P w := fun w hw => h w (List.mem_cons_of_mem v hw)
    intro w hw
    rw [escapeOperators] at hw
    split at hw
    · next hv =>
      rcases List.mem_cons.mp hw with rfl | hw
      · exact hcode v hv.1
      · exact ih hrest w hw
    · rcases List.mem_cons.mp hw with rfl | hw
      · exact h w List.mem_cons_self
      · exact ih hrest w hw

/-- **The search for one operator** is such a walk, from a space that is free as from one that was
taken.  The second half is what makes the induction go through: behind a match the search begins
without its space. -/
theorem replaceAll_operator {op : List Char} (hop : ' ' ∉ op) {words : List (List Char)}
    (hwords : ∀ w ∈ words, ' ' ∉ w) :
    replaceAll (' ' :: op ++ [' ']) (' ' :: code op ++ [' ']) (' ' :: spaced words)
        = ' ' :: spaced (escapeOperators [op] none words)
      ∧ replaceAll (' ' :: op ++ [' ']) (' ' :: code op ++ [' ']) (spaced words)
        = spaced (escapeOperators [op] (some op) words) := by
  have hne : ' ' :: op ++ [' '] ≠ [] := List.cons_ne_nil _ _
  induction words with
  | nil =>
    refine ⟨replaceAll_of_absent hne fun hpart => ?_, replaceAll_nil _ _⟩
    have hlength := hpart.length_le
    simp [spaced] at hlength
  | cons w rest ih =>
    obtain ⟨hfree, htaken⟩ := ih fun v hv => hwords v (List.mem_cons_of_mem w hv)
    have hw : ' ' ∉ w := hwords w List.mem_cons_self
    -- Behind a space that was taken, nothing is found before the next one.
    have hbehind : replaceAll (' ' :: op ++ [' ']) (' ' :: code op ++ [' ']) (spaced (w :: rest))
        = w ++ ' ' :: spaced (escapeOperators [op] none rest) := by
      rw [spaced_cons, List.cons_append, replaceAll_append_of_not_mem hw, ← List.cons_append, hfree]
    constructor
    · by_cases hoperator : w = op
      · subst hoperator
        have hoccurrence : ' ' :: spaced (w :: rest) = (' ' :: w ++ [' ']) ++ spaced rest := by
          rw [spaced_cons]
          simp
        rw [hoccurrence, replaceAll_occurrence hne, htaken, escapeOperators,
          if_pos ⟨List.mem_singleton_self w, nofun⟩, spaced_cons]
        simp
      · have hstart : ¬ ' ' :: op ++ [' '] <+: ' ' :: spaced (w :: rest) := by
          rintro ⟨tail, htail⟩
          rw [spaced_cons, List.cons_append, List.cons_append, List.append_assoc] at htail
          have hparts : some (op, tail) = some (w, spaced rest) := by
            rw [← splitAtFirst?_append hop tail, ← splitAtFirst?_append hw (spaced rest)]
            exact congrArg _ (List.cons.inj htail).2
          cases hparts
          exact hoperator rfl
        have hmissed : ¬ (w ∈ [op] ∧ none ≠ some w) := fun h =>
          hoperator (List.mem_singleton.mp h.1)
        rw [replaceAll_cons_of_not_start hstart, hbehind, escapeOperators, if_neg hmissed,
          spaced_cons]
    · have hmissed : ¬ (w ∈ [op] ∧ some op ≠ some w) := by
        rintro ⟨hmem, hne⟩
        exact hne (congrArg some (List.mem_singleton.mp hmem).symm)
      rw [hbehind, escapeOperators, if_neg hmissed, spaced_cons]

/-- **A walk for one operator before a walk for others** is a walk for all of them.  The space that
the one operator has taken is free for the others, hence the change of `taken`. -/
theorem escapeOperators_singleton {op : List Char} {ops : List (List Char)} (hop : op ∉ ops)
    (hcode : code op ∉ ops) (taken : Option (List Char)) (words : List (List Char)) :
    escapeOperators ops (if taken = some op then none else taken)
        (escapeOperators [op] taken words)
      = escapeOperators (op :: ops) taken words := by
  induction words generalizing taken with
  | nil => rfl
  | cons w rest ih =>
    have hfree : escapeOperators ops none (escapeOperators [op] none rest)
        = escapeOperators (op :: ops) none rest := ih none
    by_cases hw : w = op
    · subst hw
      -- No other operator is this word, escaped or not, so only the first walk matters.
      by_cases htaken : taken = some w
      · simp [escapeOperators, htaken, hop, hfree]
      · have hrest := ih (some w)
        rw [if_pos rfl] at hrest
        simp [escapeOperators, htaken, hcode, hrest]
    · have hwalked :
          escapeOperators [op] taken (w :: rest) = w :: escapeOperators [op] none rest := by
        rw [escapeOperators, if_neg fun h => hw (List.mem_singleton.mp h.1)]
      have hwords : w ∈ ops ∧ (if taken = some op then none else taken) ≠ some w
          ↔ w ∈ op :: ops ∧ taken ≠ some w := by
        by_cases htaken : taken = some op
        · simp [htaken, hw, Ne.symm hw]
        · simp [htaken, hw]
      by_cases hescaped : w ∈ op :: ops ∧ taken ≠ some w
      · have hother : ∀ other ∈ [op], some w ≠ some other := by
          simpa using hw
        have hrest := ih (some w)
        rw [if_neg fun h => hw (Option.some.inj h), escapeOperators_of_free hother] at hrest
        rw [hwalked, escapeOperators, if_pos (hwords.mpr hescaped), hrest, escapeOperators,
          if_pos hescaped]
      · rw [hwalked, escapeOperators, if_neg fun h => hescaped (hwords.mp h), hfree,
          escapeOperators, if_neg hescaped]

/-- **Escaping operators** one after another is one walk over the words.  `hcode` asks that no
escaped form is an operator again, so no search finds what an earlier one has written. -/
theorem replaceEach_operators {ops : List (List Char)} (hnodup : ops.Nodup)
    (hspace : ∀ op ∈ ops, ' ' ∉ op ∧ ' ' ∉ code op) (hcode : ∀ op ∈ ops, code op ∉ ops)
    {words : List (List Char)} (hwords : ∀ w ∈ words, ' ' ∉ w) :
    replaceEach (ops.map fun op => (' ' :: op ++ [' '], ' ' :: code op ++ [' ']))
        (' ' :: spaced words)
      = ' ' :: spaced (escapeOperators ops none words) := by
  induction ops generalizing words with
  | nil =>
    rw [escapeOperators_nil]
    rfl
  | cons op ops ih =>
    obtain ⟨hop, hnodup⟩ := List.nodup_cons.mp hnodup
    obtain ⟨hopSpace, hcodeSpace⟩ := hspace op List.mem_cons_self
    have hwalked : ∀ w ∈ escapeOperators [op] none words, ' ' ∉ w :=
      forall_mem_escapeOperators (List.forall_mem_singleton.mpr hcodeSpace) hwords
    have hrest := ih hnodup (fun other hother => hspace other (List.mem_cons_of_mem op hother))
      (fun other hother hmem =>
        hcode other (List.mem_cons_of_mem op hother) (List.mem_cons_of_mem op hmem))
      hwalked
    have hcode' : code op ∉ ops := fun hmem =>
      hcode op List.mem_cons_self (List.mem_cons_of_mem op hmem)
    have hwalk : escapeOperators ops none (escapeOperators [op] none words)
        = escapeOperators (op :: ops) none words :=
      escapeOperators_singleton hop hcode' none words
    rw [List.map_cons, replaceEach_cons, (replaceAll_operator hopSpace hwords).1, hrest, hwalk]

/-! ## Whole lines -/

/-- No operator has an ampersand. -/
theorem ampersands_operator {op : List Char} (h : op ∈ operators) : ampersands op = op := by
  have hall : ∀ op ∈ operators, '&' ∉ op := by decide
  exact ampersands_of_not_mem (hall op h)

/-- Escaping ampersands makes no operator of another word. -/
theorem ampersands_mem_operators_iff {w : List Char} :
    ampersands w ∈ operators ↔ w ∈ operators := by
  have hall : ∀ op ∈ operators, '&' ∉ op := by decide
  constructor
  · intro h
    have hamp : '&' ∉ w := by
      intro hmem
      obtain ⟨before, after, rfl⟩ := List.append_of_mem hmem
      refine hall _ h ?_
      have hescaped : ampersands ('&' :: after) = "&amp;".toList ++ ampersands after := by
        rw [ampersands, replaceAll_singleton_cons, if_pos rfl]
        rfl
      rw [ampersands_append, hescaped]
      exact List.mem_append_right _ (List.mem_append_left _ List.mem_cons_self)
    rwa [ampersands_of_not_mem hamp] at h
  · intro h
    rwa [ampersands_operator h]

/-- An operator that was escaped is not changed any more. -/
theorem tagged_code {op : List Char} (h : op ∈ operators) :
    writeTags ((replaceEach tokenEscapes (code op)).map setAside) = code op := by
  revert op
  decide +kernel

/-- Escaping the operators among words and then converting each of them. -/
theorem map_escapeOperators (taken : Option (List Char)) (words : List (List Char)) :
    (escapeOperators operators taken (words.map ampersands)).map
        (fun w => writeTags ((replaceEach tokenEscapes w).map setAside))
      = convertWords taken words := by
  induction words generalizing taken with
  | nil => rfl
  | cons w rest ih =>
    have hrest : ∀ taken, (escapeOperators operators taken (rest.map ampersands)).map _
        = convertWords taken rest := ih
    by_cases hw : w ∈ operators
    · by_cases htaken : taken = some w
      · rw [List.map_cons, ampersands_operator hw, escapeOperators, if_neg fun h => h.2 htaken,
          List.map_cons, hrest none, convertWords, if_neg fun h => h.2 htaken, convertWord,
          ampersands_operator hw]
      · rw [List.map_cons, ampersands_operator hw, escapeOperators, if_pos ⟨hw, htaken⟩,
          List.map_cons, hrest (some w), tagged_code hw, convertWords, if_pos ⟨hw, htaken⟩]
    · have hw' : ampersands w ∉ operators := fun h => hw (ampersands_mem_operators_iff.mp h)
      rw [List.map_cons, escapeOperators, if_neg fun h => hw' h.1, List.map_cons, hrest none,
        convertWords, if_neg fun h => hw h.1, convertWord]

/-- What is done to every word when the operators are escaped. -/
theorem escapeProse_spaced {words : List (List Char)} (h : ∀ w ∈ words, ' ' ∉ w) :
    replaceEach escapes (' ' :: spaced words)
      = ' ' :: spaced ((escapeOperators operators none (words.map ampersands)).map
          (replaceEach tokenEscapes)) := by
  have hspace : ∀ w ∈ words.map ampersands, ' ' ∉ w := by
    intro w hw
    obtain ⟨v, hv, rfl⟩ := List.mem_map.mp hw
    intro hmem
    rcases mem_of_mem_ampersands hmem with hbefore | hcame
    · exact h v hv hbefore
    · exact absurd hcame (by decide)
  have hops : ∀ op ∈ operators, ' ' ∉ op ∧ ' ' ∉ code op := by decide
  have hcode : ∀ op ∈ operators, code op ∉ operators := by decide
  have htokens : ∀ pair ∈ tokenEscapes, pair.1 ≠ [] ∧ ' ' ∉ pair.1 := by decide
  rw [escapes, replaceEach_cons, ← ampersands, ampersands_spaced, replaceEach_append_pairs,
    operatorEscapes_eq, replaceEach_operators (by decide) hops hcode hspace,
    replaceEach_spaced htokens]

/-- **Every line is converted word by word**, where words are what single spaces part; words may be
empty here. -/
theorem prose_eq_convertWords (s : List Char) :
    prose s = trim ([' '].intercalate (convertWords none (splitWhere (· == ' ') s))) := by
  have hwords : splitWhere (· == ' ') s ≠ [] := splitWhere_ne_nil _ s
  have hspace : ∀ w ∈ splitWhere (· == ' ') s, ' ' ∉ w := by
    intro w hw hmem
    exact nomatch not_of_mem_splitWhere hw hmem
  have hpadded : ' ' :: s ++ [' '] = ' ' :: spaced (splitWhere (· == ' ') s) := by
    rw [spaced_eq hwords, intercalate_splitWhere]
    rfl
  have hruns : ∀ pair ∈ runs, pair.1 ≠ [] ∧ ' ' ∉ pair.1 := by decide
  have htagged : writeTags ((escapeProse s).map setAside)
      = ' ' :: spaced (convertWords none (splitWhere (· == ' ') s)) := by
    rw [escapeProse_eq, hpadded, escapeProse_spaced hspace, map_setAside_spaced, writeTags_eq,
      replaceEach_spaced hruns, List.map_map, List.map_map, ← map_escapeOperators]
    rfl
  have hblank : ∀ c ∈ [' '], isBlank c := by decide
  rw [prose, htagged, spaced_eq (convertWords_ne_nil hwords)]
  exact trim_append_blanks hblank hblank _

/-! ## Words by themselves -/

/-- **A word**: there is something, and nothing of it is blank. -/
structure IsWord (w : List Char) : Prop where
  nonempty : w ≠ []
  not_blank : ∀ c ∈ w, isBlank c = false

theorem isWord_iff {w : List Char} : IsWord w ↔ w ≠ [] ∧ ∀ c ∈ w, isBlank c = false :=
  ⟨fun h => ⟨h.nonempty, h.not_blank⟩, fun h => ⟨h.1, h.2⟩⟩

instance (w : List Char) : Decidable (IsWord w) :=
  decidable_of_iff' _ isWord_iff

theorem IsWord.space_not_mem {w : List Char} (h : IsWord w) : ' ' ∉ w := fun hmem =>
  absurd (h.not_blank ' ' hmem) (by decide)

/-- A word stays one when words are put in for parts of it. -/
theorem IsWord.replaceAll {old new w : List Char} (h : IsWord w) (hold : old ≠ [])
    (hnew : IsWord new) : IsWord (Text.replaceAll old new w) where
  nonempty := replaceAll_ne_nil hold hnew.nonempty h.nonempty
  not_blank c hc := (mem_of_mem_replaceAll hold hc).elim (h.not_blank c) (hnew.not_blank c)

/-- The same for replacements made one after another. -/
theorem IsWord.replaceEach {pairs : List (List Char × List Char)} {w : List Char} (h : IsWord w)
    (hpairs : ∀ pair ∈ pairs, pair.1 ≠ [] ∧ IsWord pair.2) : IsWord (replaceEach pairs w) := by
  refine replaceEach_induction (P := IsWord) ?_ h
  intro pair hpair v hv
  exact hv.replaceAll (hpairs pair hpair).1 (hpairs pair hpair).2

theorem IsWord.map_setAside {w : List Char} (h : IsWord w) : IsWord (w.map setAside) where
  nonempty := fun hnil => h.nonempty (List.map_eq_nil_iff.mp hnil)
  not_blank c hc := by
    obtain ⟨d, hd, rfl⟩ := List.mem_map.mp hc
    rw [setAside]
    split
    · decide
    · split
      · decide
      · exact h.not_blank d hd

/-- Conversion makes words of words: entities and tags have no blanks. -/
theorem IsWord.convertWord {w : List Char} (h : IsWord w) : IsWord (convertWord w) := by
  have htokens : ∀ pair ∈ tokenEscapes, pair.1 ≠ [] ∧ IsWord pair.2 := by decide
  have hruns : ∀ pair ∈ runs, pair.1 ≠ [] ∧ IsWord pair.2 := by decide
  have hescaped : IsWord (ampersands w) := h.replaceAll (by decide) (by decide)
  rw [Markup.convertWord, writeTags_eq]
  exact ((hescaped.replaceEach htokens).map_setAside).replaceEach hruns

/-- The entity form of an operator is a word. -/
theorem isWord_code {op : List Char} (h : op ∈ operators) : IsWord (code op) := by
  revert op
  decide

theorem isWord_of_mem_convertWords {taken : Option (List Char)} {words : List (List Char)}
    (h : ∀ w ∈ words, IsWord w) : ∀ w ∈ convertWords taken words, IsWord w := by
  induction words generalizing taken with
  | nil => exact nofun
  | cons v rest ih =>
    have hrest : ∀ w ∈ rest, IsWord w := fun w hw => h w (List.mem_cons_of_mem v hw)
    intro w hw
    rw [convertWords] at hw
    split at hw
    · next hv =>
      rcases List.mem_cons.mp hw with rfl | hw
      · exact isWord_code hv.1
      · exact ih hrest w hw
    · rcases List.mem_cons.mp hw with rfl | hw
      · exact (h v List.mem_cons_self).convertWord
      · exact ih hrest w hw

theorem intercalate_ne_nil {words : List (List Char)} (hne : words ≠ [])
    (h : ∀ w ∈ words, IsWord w) : [' '].intercalate words ≠ [] := by
  obtain ⟨w, rest, rfl⟩ := List.exists_cons_of_ne_nil hne
  have hw : w ≠ [] := (h w List.mem_cons_self).nonempty
  cases rest with
  | nil => rwa [List.intercalate_singleton]
  | cons v more =>
    rw [List.intercalate_cons_cons, List.append_assoc]
    exact List.append_ne_nil_of_left_ne_nil hw _

/-- Words joined by spaces have nothing to trim. -/
theorem trimmed_intercalate {words : List (List Char)} (h : ∀ w ∈ words, IsWord w) :
    Trimmed ([' '].intercalate words) := by
  induction words with
  | nil => decide
  | cons w rest ih =>
    have hw : IsWord w := h w List.mem_cons_self
    have hrest : ∀ v ∈ rest, IsWord v := fun v hv => h v (List.mem_cons_of_mem w hv)
    cases rest with
    | nil =>
      rw [List.intercalate_singleton]
      exact ⟨fun c hc => hw.not_blank c (List.mem_of_mem_head? hc),
        fun c hc => hw.not_blank c (List.mem_of_mem_getLast? hc)⟩
    | cons v more =>
      have hne : [' '].intercalate (v :: more) ≠ [] :=
        intercalate_ne_nil (List.cons_ne_nil v more) hrest
      rw [List.intercalate_cons_cons, List.append_assoc]
      constructor
      · intro c hc
        rw [List.head?_append, List.head?_eq_some_head hw.nonempty] at hc
        exact hw.not_blank c (Option.mem_some.mp hc ▸ List.head_mem hw.nonempty)
      · intro c hc
        rw [← List.append_assoc, List.getLast?_append, List.getLast?_eq_some_getLast hne] at hc
        exact (ih hrest).last c (List.getLast?_eq_some_getLast hne ▸ hc)

/-- **What words joined by spaces convert to.** Words that are not empty and have no blanks in them
are not changed by the trimming at the end. -/
theorem prose_words {words : List (List Char)} (hne : words ≠ []) (h : ∀ w ∈ words, IsWord w) :
    prose ([' '].intercalate words) = [' '].intercalate (convertWords none words) := by
  have hsplit : splitWhere (· == ' ') ([' '].intercalate words) = words :=
    splitWhere_intercalate hne fun w hw => (h w hw).space_not_mem
  rw [prose_eq_convertWords, hsplit]
  exact trim_of_trimmed (trimmed_intercalate (isWord_of_mem_convertWords h))

/-- **A text of one word**: an operator by itself is between spaces, since the reader adds them. -/
theorem prose_word {w : List Char} (h : IsWord w) :
    prose w = if w ∈ operators then code w else convertWord w := by
  have hwords := prose_words (List.cons_ne_nil w []) (by simpa using h)
  rw [List.intercalate_singleton] at hwords
  by_cases hop : w ∈ operators
  · rw [hwords, convertWords, if_pos ⟨hop, nofun⟩, if_pos hop, convertWords,
      List.intercalate_singleton]
  · rw [hwords, convertWords, if_neg fun h => hop h.1, if_neg hop, convertWords,
      List.intercalate_singleton]

/-- An operator's own form differs from that of a word of the same characters. -/
theorem prose_operator {op : List Char} (h : op ∈ operators) :
    prose op = code op ∧ convertWord op ≠ code op := by
  revert op
  decide +kernel

/-- **Each word converts as it does alone** unless it is an operator directly behind itself.
`taken` is the operator that has used the space before the first word. -/
theorem convertWords_eq_map_iff (taken : Option (List Char)) {words : List (List Char)}
    (h : ∀ w ∈ words, IsWord w) :
    convertWords taken words = words.map prose
      ↔ (∀ w ∈ words.head?, w ∈ operators → taken ≠ some w)
        ∧ words.IsChain fun a b => a ∈ operators → a ≠ b := by
  induction words generalizing taken with
  | nil => simp [convertWords]
  | cons w rest ih =>
    have hw : IsWord w := h w List.mem_cons_self
    have hrest : ∀ v ∈ rest, IsWord v := fun v hv => h v (List.mem_cons_of_mem w hv)
    rw [convertWords, List.map_cons, List.isChain_cons]
    by_cases hop : w ∈ operators
    · obtain ⟨halone, hmissed⟩ := prose_operator hop
      by_cases htaken : taken = some w
      · simp [hop, htaken, halone, hmissed]
      · rw [if_pos ⟨hop, htaken⟩, halone, List.cons_inj_right, ih (some w) hrest]
        have hfirst : ∀ x ∈ (w :: rest).head?, x ∈ operators → taken ≠ some x := by
          rintro x ⟨rfl⟩ -
          exact htaken
        -- The next operator is another one: both sides say so.
        have hnext (v : List Char) :
            (v ∈ operators → some w ≠ some v) ↔ (w ∈ operators → w ≠ v) := by
          constructor
          · rintro hv - rfl
            exact hv hop rfl
          · rintro hv - heq
            exact hv hop (Option.some.inj heq)
        simp only [hnext]
        exact (and_iff_right hfirst).symm
    · rw [if_neg fun h => hop h.1, prose_word hw, if_neg hop, List.cons_inj_right, ih none hrest]
      simp [hop]

/-- **Words joined by spaces.**  Each of them converts as it does alone just where no operator
stands directly behind itself; an operator that does has its brackets taken for tags. -/
theorem prose_intercalate {words : List (List Char)} (hne : words ≠ [])
    (h : ∀ w ∈ words, IsWord w) :
    prose ([' '].intercalate words) = [' '].intercalate (convertWords none words)
      ∧ (prose ([' '].intercalate words) = [' '].intercalate (words.map prose)
        ↔ words.IsChain fun a b => a ∈ operators → a ≠ b)
      ∧ ∀ op ∈ operators, prose op = code op ∧ '<' ∉ code op ∧ '<' ∈ convertWord op := by
  refine ⟨prose_words hne h, ?_, by decide +kernel⟩
  have hspace {ws : List (List Char)} (hws : ∀ w ∈ ws, IsWord w) : ∀ w ∈ ws, ' ' ∉ w :=
    fun w hw => (hws w hw).space_not_mem
  -- Both sides are words joined by spaces, so they are equal only word by word.
  have halone : ∀ w ∈ words.map prose, IsWord w := by
    intro v hv
    obtain ⟨w, hw, rfl⟩ := List.mem_map.mp hv
    rw [prose_word (h w hw)]
    split
    · next hop => exact isWord_code hop
    · exact (h w hw).convertWord
  have hconverted : ∀ w ∈ convertWords none words, IsWord w := isWord_of_mem_convertWords h
  rw [prose_words hne h]
  constructor
  · intro heq
    have hwords : convertWords none words = words.map prose := by
      rw [← splitWhere_intercalate (convertWords_ne_nil hne) (hspace hconverted), heq,
        splitWhere_intercalate (by simpa using hne) (hspace halone)]
    exact ((convertWords_eq_map_iff none h).mp hwords).2
  · intro hchain
    rw [(convertWords_eq_map_iff none h).mpr ⟨fun _ _ _ => nofun, hchain⟩]

/-- Different operators beside each other, then one beside itself. -/
theorem prose_intercalate_neighbours :
    let words : List (List Char) :=
      ["<".toList, "<=".toList, "x&<<y>>".toList, ">".toList, ">".toList, ">".toList]
    (words ≠ [] ∧ ∀ w ∈ words, IsWord w)
      ∧ [' '].intercalate words = "< <= x&<<y>> > > >".toList
      ∧ prose "< <= x&<<y>> > > >".toList = "&lt; &lt;= x&amp;<b>y</b> &gt; </i> &gt;".toList := by
  intro words
  have hwords : words ≠ [] ∧ ∀ w ∈ words, IsWord w := by decide
  have hjoined : [' '].intercalate words = "< <= x&<<y>> > > >".toList := by decide
  refine ⟨hwords, hjoined, ?_⟩
  rw [← hjoined, (prose_intercalate hwords.1 hwords.2).1]
  decide +kernel

/-- An operator behind itself: two words that are escaped alone, and a tag in the line of both. -/
theorem prose_doubled_operator :
    (∀ w ∈ [['<'], ['<']], IsWord w) ∧ ['<'] ∈ operators
      ∧ prose ([' '].intercalate [['<'], ['<']]) = "&lt; <i>".toList
      ∧ [' '].intercalate ([['<'], ['<']].map prose) = "&lt; &lt;".toList := by
  decide +kernel

end RuleCatalogue.Markup
