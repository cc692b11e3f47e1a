import Mathlib.Data.List.TakeWhile
import RuleCatalogue.Text.Character
import RuleCatalogue.Text.Substring

/-!
# Trimming, searching and replacing

A text is trimmed when no blank character stands at its ends.  Trimming gives such a text
(`trimmed_trim`), undoes any padding of one with blank characters (`trim_padded`), and cuts into no
trimmed part of a text (`infix_trim`); these three facts carry most of what other proofs use.

Replacement walks a text from the left.  Where the first character of the text to be replaced does
not occur, nothing happens (`replaceAll_append_of_not_mem`); a single character is replaced one
occurrence after another (`replaceAll_singleton_cons`).

## Main results

* `trimmed_trim`, `trim_padded` and `infix_trim`: trimming.
* `replaceAll_append_of_not_mem` and `replaceAll_singleton_cons`: replacing.
* `splitWhere_intercalate` and `intercalate_splitWhere`: splitting and joining undo each other.
* `eq_append_of_splitAtFirst?`: where a text is found.
-/

/-! ## Laws of trimming -/

namespace RuleCatalogue.Text

/-! ## Blank characters -/

/-- The code points of the blank characters. -/
def blankCodes : List Nat :=
  [9, 10, 11, 12, 13, 28, 29, 30, 31, 32, 0x85, 0xA0, 0x1680, 0x2000, 0x2001, 0x2002, 0x2003,
   0x2004, 0x2005, 0x2006, 0x2007, 0x2008, 0x2009, 0x200A, 0x2028, 0x2029, 0x202F, 0x205F, 0x3000]

/-- The blank characters are finitely many, listed by their codes. -/
theorem mem_blankCodes_of_isBlank {c : Char} (h : isBlank c) : c.toNat ∈ blankCodes := by
  simp only [isBlank, Bool.or_eq_true, Bool.and_eq_true, decide_eq_true_iff, beq_iff_eq] at h
  simp only [blankCodes, List.mem_cons, List.not_mem_nil, or_false]
  omega

theorem dropEndWhile_prefix (p : Char → Bool) (s : List Char) : dropEndWhile p s <+: s := by
  have hsuffix : s.reverse.dropWhile p <:+ s.reverse := List.dropWhile_suffix p
  rw [dropEndWhile, ← List.reverse_suffix, List.reverse_reverse]
  exact hsuffix

theorem dropEndWhile_append_of_all {p : Char → Bool} {after : List Char} (h : ∀ c ∈ after, p c)
    (s : List Char) : dropEndWhile p (s ++ after) = dropEndWhile p s := by
  rw [dropEndWhile, List.reverse_append,
    List.dropWhile_append_of_pos fun c hc => h c (List.mem_reverse.mp hc)]
  rfl

/-- **No blank character at either end.** -/
structure Trimmed (s : List Char) : Prop where
  head : ∀ c ∈ s.head?, isBlank c = false
  last : ∀ c ∈ s.getLast?, isBlank c = false

theorem trimmed_iff_all {s : List Char} :
    Trimmed s ↔ s.head?.all (!isBlank ·) ∧ s.getLast?.all (!isBlank ·) := by
  simp only [Option.all_eq_true, Bool.not_eq_true']
  exact ⟨fun h => ⟨h.head, h.last⟩, fun h => ⟨h.1, h.2⟩⟩

instance (s : List Char) : Decidable (Trimmed s) :=
  decidable_of_iff' _ trimmed_iff_all

theorem Trimmed.any_not_blank {s : List Char} (h : Trimmed s) (hne : s ≠ []) :
    s.any (!isBlank ·) := by
  cases s with
  | nil => exact absurd rfl hne
  | cons c rest =>
    have hc : isBlank c = false := h.head c rfl
    rw [List.any_cons, hc]
    rfl

theorem not_blank_of_mem_head?_dropWhile {p : Char → Bool} {s : List Char} {c : Char}
    (h : c ∈ (s.dropWhile p).head?) : p c = false := by
  have hhead := List.head?_dropWhile_not p s
  rw [Option.mem_def.mp h] at hhead
  simpa using hhead

theorem trimmed_trim (s : List Char) : Trimmed (trim s) where
  head c hc := by
    obtain ⟨after, hafter⟩ := dropEndWhile_prefix isBlank (trimStart s)
    have hstart : c ∈ (trimStart s).head? := by
      rw [← hafter, List.head?_append]
      exact Option.mem_def.mpr (Option.or_eq_some_iff.mpr (Or.inl hc))
    exact not_blank_of_mem_head?_dropWhile hstart
  last c hc := by
    rw [trim, trimEnd, dropEndWhile, List.getLast?_reverse] at hc
    exact not_blank_of_mem_head?_dropWhile hc

theorem mem_of_mem_trim {s : List Char} {c : Char} (h : c ∈ trim s) : c ∈ s := by
  obtain ⟨after, hafter⟩ := dropEndWhile_prefix isBlank (trimStart s)
  have hstart : c ∈ trimStart s := hafter ▸ List.mem_append_left after h
  exact List.dropWhile_subset _ hstart

theorem mem_dropWhile_of_not {p : Char → Bool} {s : List Char} {c : Char} (hc : p c = false)
    (h : c ∈ s) : c ∈ s.dropWhile p := by
  rw [← List.takeWhile_append_dropWhile (p := p) (l := s), List.mem_append] at h
  refine h.resolve_left fun htake => ?_
  rw [List.mem_takeWhile_imp htake] at hc
  exact nomatch hc

/-- A character that is not blank is never trimmed. -/
theorem mem_trim_iff {s : List Char} {c : Char} (hc : isBlank c = false) : c ∈ trim s ↔ c ∈ s := by
  constructor
  · exact mem_of_mem_trim
  · intro h
    have hstart : c ∈ (trimStart s).reverse := List.mem_reverse.mpr (mem_dropWhile_of_not hc h)
    exact List.mem_reverse.mpr (mem_dropWhile_of_not hc hstart)

/-- Nothing is left of a blank text alone. -/
theorem trim_eq_nil_iff {s : List Char} : trim s = [] ↔ ∀ c ∈ s, isBlank c := by
  rw [trim, trimEnd, dropEndWhile, List.reverse_eq_nil_iff, List.dropWhile_eq_nil_iff]
  constructor
  · intro h
    refine List.dropWhile_eq_nil_iff.mp ?_
    cases hstart : s.dropWhile isBlank with
    | nil => rfl
    | cons c rest =>
      have hblank : isBlank c := h c (by simp [trimStart, hstart])
      have hfirst : c ∈ (s.dropWhile isBlank).head? := by
        rw [hstart]
        rfl
      have hhead : isBlank c = false := not_blank_of_mem_head?_dropWhile hfirst
      rw [hhead] at hblank
      exact absurd hblank Bool.false_ne_true
  · intro h c hc
    exact h c (List.dropWhile_subset _ (List.mem_reverse.mp hc))

theorem dropWhile_of_head {p : Char → Bool} {s : List Char} (h : ∀ c ∈ s.head?, p c = false) :
    s.dropWhile p = s := by
  cases s with
  | nil => rfl
  | cons c rest => exact List.dropWhile_cons_of_neg (by simp [h c rfl])

theorem trim_of_trimmed {s : List Char} (h : Trimmed s) : trim s = s := by
  have hlast : ∀ c ∈ s.reverse.head?, isBlank c = false := by
    rw [List.head?_reverse]
    exact h.last
  rw [trim, trimStart, dropWhile_of_head h.head, trimEnd, dropEndWhile, dropWhile_of_head hlast,
    List.reverse_reverse]

/-- A text that begins with a character that is not blank is trimmed at its end alone. -/
theorem exists_trim_append {s : List Char} (h : ∀ c ∈ s.head?, isBlank c = false) :
    ∃ after, s = trim s ++ after ∧ ∀ c ∈ after, isBlank c := by
  refine ⟨(s.reverse.takeWhile isBlank).reverse, ?_, fun c hc => ?_⟩
  · rw [trim, trimStart, dropWhile_of_head h, trimEnd, dropEndWhile, ← List.reverse_append,
      List.takeWhile_append_dropWhile, List.reverse_reverse]
  · exact List.mem_takeWhile_imp (List.mem_reverse.mp hc)

/-- **Trimming undoes padding**, however many blanks are on either side, and of whatever kinds. -/
theorem trim_padded {before s after : List Char} (hbefore : ∀ c ∈ before, isBlank c)
    (hafter : ∀ c ∈ after, isBlank c) (h : Trimmed s) : trim (before ++ (s ++ after)) = s := by
  have hstart : trimStart (before ++ (s ++ after)) = (s ++ after).dropWhile isBlank :=
    List.dropWhile_append_of_pos hbefore
  rw [trim, hstart]
  cases s with
  | nil =>
    have hnothing : (after ++ []).dropWhile isBlank = [].dropWhile isBlank :=
      List.dropWhile_append_of_pos hafter
    rw [List.append_nil] at hnothing
    rw [List.nil_append, hnothing]
    rfl
  | cons c rest =>
    have hhead : ∀ d ∈ (c :: rest ++ after).head?, isBlank d = false := h.head
    have htrimmed : trim (c :: rest) = c :: rest := trim_of_trimmed h
    rw [dropWhile_of_head hhead, trimEnd, dropEndWhile_append_of_all hafter]
    rwa [trim, trimStart, dropWhile_of_head h.head] at htrimmed

/-! ## What trimming keeps -/

theorem isInfix_trim (s : List Char) : trim s <:+: s := by
  have hend : trim s <+: trimStart s := dropEndWhile_prefix isBlank (trimStart s)
  exact hend.isInfix.trans (List.dropWhile_suffix _).isInfix

/-- **A text is trimmed by its blank ends**: what is cut off is blank, and what stays is in one
piece. -/
theorem exists_eq_trim (s : List Char) :
    ∃ before after, s = before ++ (trim s ++ after)
      ∧ (∀ c ∈ before, isBlank c) ∧ ∀ c ∈ after, isBlank c := by
  have hhead : ∀ c ∈ (trimStart s).head?, isBlank c = false := fun c hc =>
    not_blank_of_mem_head?_dropWhile hc
  obtain ⟨after, hafter, hblank⟩ := exists_trim_append hhead
  have hagain : trim (trimStart s) = trim s := by
    rw [trim, trim, trimStart, dropWhile_of_head hhead]
  refine ⟨s.takeWhile isBlank, after, ?_, fun c hc => List.mem_takeWhile_imp hc, hblank⟩
  rw [← hagain, ← hafter, trimStart, List.takeWhile_append_dropWhile]

/-- Blank characters around a text are trimmed with those of the text. -/
theorem trim_append_blanks {before after : List Char} (hbefore : ∀ c ∈ before, isBlank c)
    (hafter : ∀ c ∈ after, isBlank c) (s : List Char) : trim (before ++ (s ++ after)) = trim s := by
  obtain ⟨lead, tail, hs, hlead, htail⟩ := exists_eq_trim s
  have hpadded : before ++ (s ++ after) = before ++ lead ++ (trim s ++ (tail ++ after)) := by
    calc before ++ (s ++ after)
        = before ++ (lead ++ (trim s ++ tail) ++ after) := by rw [← hs]
      _ = before ++ lead ++ (trim s ++ (tail ++ after)) := by simp only [List.append_assoc]
  rw [hpadded]
  refine trim_padded ?_ ?_ (trimmed_trim s)
  · intro c hc
    exact (List.mem_append.mp hc).elim (hbefore c) (hlead c)
  · intro c hc
    exact (List.mem_append.mp hc).elim (htail c) (hafter c)

/-- What stands before a character that is kept is dropped without it. -/
theorem exists_dropWhile_append {p : Char → Bool} {t : List Char}
    (h : ∀ c ∈ t.head?, p c = false) (s : List Char) :
    ∃ kept, (s ++ t).dropWhile p = kept ++ t := by
  induction s with
  | nil => exact ⟨[], dropWhile_of_head h⟩
  | cons c rest ih =>
    by_cases hc : p c
    · rw [List.cons_append, List.dropWhile_cons_of_pos hc]
      exact ih
    · rw [List.cons_append, List.dropWhile_cons_of_neg hc]
      exact ⟨c :: rest, rfl⟩

/-- **A trimmed part of a text** is still there when the text is trimmed.  `hne` excludes the empty
part, of which there is nothing to keep. -/
theorem infix_trim {u s : List Char} (hne : u ≠ []) (hu : Trimmed u) (h : u <:+: s) :
    u <:+: trim s := by
  obtain ⟨before, after, rfl⟩ := h
  have hhead : ∀ c ∈ (u ++ after).head?, isBlank c = false := by
    intro c hc
    rw [List.head?_append, List.head?_eq_some_head hne] at hc
    exact hu.head c (List.head?_eq_some_head hne ▸ hc)
  obtain ⟨kept, hkept⟩ := exists_dropWhile_append hhead before
  have hlast : ∀ c ∈ (u.reverse ++ kept.reverse).head?, isBlank c = false := by
    intro c hc
    rw [← List.reverse_append, List.head?_reverse, List.getLast?_append,
      List.getLast?_eq_some_getLast hne] at hc
    exact hu.last c (List.getLast?_eq_some_getLast hne ▸ hc)
  obtain ⟨kept', hkept'⟩ := exists_dropWhile_append hlast after.reverse
  have hstart : trimStart (before ++ u ++ after) = kept ++ (u ++ after) := by
    rw [trimStart, List.append_assoc, hkept]
  have hreversed : (kept ++ (u ++ after)).reverse
      = after.reverse ++ (u.reverse ++ kept.reverse) := by
    simp
  rw [trim, hstart, trimEnd, dropEndWhile, hreversed, hkept']
  exact ⟨kept, kept'.reverse, by simp⟩

/-! ## Strings -/

theorem trimmed_eq_of_trimmed {s : String} (h : Trimmed s.toList) : trimmed s = s := by
  rw [trimmed, trim_of_trimmed h, String.ofList_toList]

theorem trimmed_trimmed (s : String) : trimmed (trimmed s) = trimmed s := by
  refine trimmed_eq_of_trimmed ?_
  rw [trimmed, String.toList_ofList]
  exact trimmed_trim s.toList

theorem isBlankText_iff {s : String} : isBlankText s ↔ trim s.toList = [] := by
  rw [trim_eq_nil_iff, isBlankText, List.all_eq_true]

theorem isEmpty_trimmed (s : String) : (trimmed s).isEmpty = isBlankText s := by
  rw [Bool.eq_iff_iff, String.isEmpty_iff, trimmed, String.ofList_eq_empty_iff, isBlankText_iff]

/-- Trimming does not make a text blank. -/
theorem isBlankText_trimmed (s : String) : isBlankText (trimmed s) = isBlankText s := by
  refine Bool.eq_iff_iff.mpr ?_
  rw [isBlankText_iff, isBlankText_iff, trimmed, String.toList_ofList,
    trim_of_trimmed (trimmed_trim s.toList)]

end RuleCatalogue.Text

/-! ## Laws of replacing, splitting and joining -/

namespace RuleCatalogue.Text

variable {old new : List Char}

@[simp] theorem replaceAll_nil (old new : List Char) : replaceAll old new [] = [] := by
  rw [replaceAll]

theorem replaceAll_occurrence_append {first : Char} {more rest : List Char} :
    replaceAll (first :: more) new (first :: more ++ rest)
      = new ++ replaceAll (first :: more) new rest := by
  have hprefix : (first :: more).isPrefixOf (first :: (more ++ rest)) :=
    List.isPrefixOf_iff_prefix.mpr ⟨rest, rfl⟩
  rw [List.cons_append, replaceAll, if_pos hprefix]
  simp

theorem replaceAll_cons_of_not_start {c : Char} {rest : List Char} (h : ¬ old <+: c :: rest) :
    replaceAll old new (c :: rest) = c :: replaceAll old new rest := by
  rw [replaceAll, if_neg fun hprefix => h (List.isPrefixOf_iff_prefix.mp hprefix)]

/-- A stretch without the first character of what is replaced stays as it is. -/
theorem replaceAll_append_of_not_mem {first : Char} {more stretch : List Char}
    (h : first ∉ stretch) (rest : List Char) :
    replaceAll (first :: more) new (stretch ++ rest)
      = stretch ++ replaceAll (first :: more) new rest := by
  induction stretch with
  | nil => rfl
  | cons c stretch ih =>
    have hc : first ≠ c := fun e => h (by simp [e])
    have hprefix : ¬ first :: more <+: c :: (stretch ++ rest) := by
      rintro ⟨tail, htail⟩
      exact hc (List.cons.inj htail).1
    rw [List.cons_append, replaceAll_cons_of_not_start hprefix,
      ih fun m => h (List.mem_cons_of_mem c m), List.cons_append]

/-- A single character is replaced wherever it stands. -/
theorem replaceAll_singleton_cons (mark c : Char) (rest : List Char) :
    replaceAll [mark] new (c :: rest)
      = (if mark = c then new else [c]) ++ replaceAll [mark] new rest := by
  by_cases h : mark = c
  · subst h
    rw [if_pos rfl]
    exact replaceAll_occurrence_append
  · have hc : mark ∉ [c] := by simpa using h
    rw [if_neg h]
    exact replaceAll_append_of_not_mem hc rest

/-- What holds of a character of the text, and of one of the new text, holds of one of the
result. -/
theorem any_replaceAll {p : Char → Bool} (hnew : new.any p) {s : List Char} (h : s.any p) :
    (replaceAll old new s).any p := by
  fun_induction replaceAll old new s with
  | case1 => exact h
  | case2 c rest _ ih => simp [List.any_append, hnew]
  | case3 c rest _ ih =>
    rw [List.any_cons, Bool.or_eq_true] at h ⊢
    exact h.imp id ih

theorem splitWhere_ne_nil (isMark : Char → Bool) (s : List Char) : splitWhere isMark s ≠ [] := by
  fun_cases splitWhere isMark s <;> simp

/-- The pieces of a text with the mark between them are the text. -/
theorem intercalate_splitWhere (mark : Char) (s : List Char) :
    [mark].intercalate (splitWhere (· == mark) s) = s := by
  induction s with
  | nil => rfl
  | cons c rest ih =>
    obtain ⟨piece, pieces, hpieces⟩ :=
      List.exists_cons_of_ne_nil (splitWhere_ne_nil (· == mark) rest)
    rw [hpieces] at ih
    rw [splitWhere, hpieces]
    split
    · next hmark =>
      rw [← ih, beq_iff_eq.mp hmark]
      rfl
    · rw [← ih]
      cases pieces <;> rfl

/-- A text without marks is one piece. -/
theorem splitWhere_of_not {isMark : Char → Bool} {s : List Char}
    (h : ∀ c ∈ s, isMark c = false) : splitWhere isMark s = [s] := by
  induction s with
  | nil => rfl
  | cons c rest ih =>
    have hc : ¬ isMark c := by simp [h c List.mem_cons_self]
    rw [splitWhere, if_neg hc, ih fun d hd => h d (List.mem_cons_of_mem c hd)]

/-- What is appended to a text without a mark in it makes the last piece longer. -/
theorem exists_splitWhere_append {isMark : Char → Bool} {after : List Char}
    (h : ∀ c ∈ after, isMark c = false) (s : List Char) :
    ∃ init last, splitWhere isMark s = init ++ [last]
      ∧ splitWhere isMark (s ++ after) = init ++ [last ++ after] := by
  induction s with
  | nil => exact ⟨[], [], rfl, splitWhere_of_not h⟩
  | cons c rest ih =>
    obtain ⟨init, last, hrest, happend⟩ := ih
    rw [List.cons_append, splitWhere, splitWhere, hrest, happend]
    split
    · exact ⟨[] :: init, last, rfl, rfl⟩
    · cases init with
      | nil => exact ⟨[], c :: last, rfl, rfl⟩
      | cons piece init => exact ⟨(c :: piece) :: init, last, rfl, rfl⟩

/-- The pieces on both sides of a mark are pieces of the whole. -/
theorem splitWhere_append_mark {isMark : Char → Bool} {c : Char} (hc : isMark c)
    (s rest : List Char) :
    splitWhere isMark (s ++ c :: rest) = splitWhere isMark s ++ splitWhere isMark rest := by
  induction s with
  | nil =>
    show splitWhere isMark (c :: rest) = [] :: splitWhere isMark rest
    rw [splitWhere, if_pos hc]
  | cons d s ih =>
    obtain ⟨piece, pieces, hpieces⟩ := List.exists_cons_of_ne_nil (splitWhere_ne_nil isMark s)
    rw [List.cons_append, splitWhere, splitWhere, ih, hpieces]
    split
    · rfl
    · rfl

/-- Marks in front have nothing between them. -/
theorem mem_splitWhere_marks_append {isMark : Char → Bool} {marks rest piece : List Char}
    (h : ∀ c ∈ marks, isMark c) (hpiece : piece ∈ splitWhere isMark (marks ++ rest)) :
    piece = [] ∨ piece ∈ splitWhere isMark rest := by
  induction marks with
  | nil => exact Or.inr hpiece
  | cons c marks ih =>
    rw [List.cons_append, splitWhere, if_pos (h c List.mem_cons_self)] at hpiece
    rcases List.mem_cons.mp hpiece with rfl | hpiece
    · exact Or.inl rfl
    · exact ih (fun d hd => h d (List.mem_cons_of_mem c hd)) hpiece

/-- Marks in front of a text add no piece with something in it. -/
theorem filter_splitWhere_marks_append {isMark : Char → Bool} {marks : List Char}
    (h : ∀ c ∈ marks, isMark c) (rest : List Char) :
    (splitWhere isMark (marks ++ rest)).filter (!·.isEmpty)
      = (splitWhere isMark rest).filter (!·.isEmpty) := by
  induction marks with
  | nil => rfl
  | cons c marks ih =>
    rw [List.cons_append, splitWhere, if_pos (h c List.mem_cons_self), List.filter_cons_of_neg]
    · exact ih fun d hd => h d (List.mem_cons_of_mem c hd)
    · simp

/-- Marks behind a text add no piece with something in it. -/
theorem filter_splitWhere_append_marks {isMark : Char → Bool} {marks : List Char}
    (h : ∀ c ∈ marks, isMark c) (s : List Char) :
    (splitWhere isMark (s ++ marks)).filter (!·.isEmpty)
      = (splitWhere isMark s).filter (!·.isEmpty) := by
  cases marks with
  | nil => rw [List.append_nil]
  | cons c marks =>
    have hmarks := filter_splitWhere_marks_append
      (fun d hd => h d (List.mem_cons_of_mem c hd)) []
    rw [List.append_nil] at hmarks
    rw [splitWhere_append_mark (h c List.mem_cons_self), List.filter_append, hmarks]
    exact List.append_nil _

/-- No mark stands in a piece. -/
theorem not_of_mem_splitWhere {isMark : Char → Bool} {s piece : List Char} {c : Char}
    (hpiece : piece ∈ splitWhere isMark s) (hc : c ∈ piece) : isMark c = false := by
  induction s generalizing piece with
  | nil =>
    rw [splitWhere, List.mem_singleton] at hpiece
    exact absurd hc (hpiece ▸ List.not_mem_nil)
  | cons d rest ih =>
    obtain ⟨first, others, hothers⟩ := List.exists_cons_of_ne_nil (splitWhere_ne_nil isMark rest)
    rw [splitWhere, hothers] at hpiece
    rw [hothers] at ih
    split at hpiece
    · rcases List.mem_cons.mp hpiece with rfl | hrest
      · exact absurd hc List.not_mem_nil
      · exact ih hrest hc
    · next hd =>
      rcases List.mem_cons.mp hpiece with rfl | hrest
      · rcases List.mem_cons.mp hc with rfl | hc
        · exact Bool.eq_false_iff.mpr hd
        · exact ih List.mem_cons_self hc
      · exact ih (List.mem_cons_of_mem first hrest) hc

/-- The pieces of a text hold characters of the text. -/
theorem mem_of_mem_splitWhere {isMark : Char → Bool} {s piece : List Char} {c : Char}
    (hpiece : piece ∈ splitWhere isMark s) (hc : c ∈ piece) : c ∈ s := by
  induction s generalizing piece with
  | nil =>
    rw [splitWhere, List.mem_singleton] at hpiece
    exact hpiece ▸ hc
  | cons d rest ih =>
    rw [splitWhere] at hpiece
    split at hpiece
    · rcases List.mem_cons.mp hpiece with rfl | hrest
      · exact absurd hc List.not_mem_nil
      · exact List.mem_cons_of_mem d (ih hrest hc)
    · split at hpiece
      · rw [List.mem_singleton.mp hpiece] at hc
        rw [List.mem_singleton.mp hc]
        exact List.mem_cons_self
      · next first others hsplit =>
        rcases List.mem_cons.mp hpiece with rfl | hrest
        · rcases List.mem_cons.mp hc with rfl | hc
          · exact List.mem_cons_self
          · exact List.mem_cons_of_mem d (ih (hsplit ▸ List.mem_cons_self) hc)
        · exact List.mem_cons_of_mem d (ih (hsplit ▸ List.mem_cons_of_mem first hrest) hc)

/-- **Texts without the mark** are read back where the mark was put between them, empty ones too. -/
theorem splitWhere_intercalate {mark : Char} {texts : List (List Char)} (hne : texts ≠ [])
    (h : ∀ text ∈ texts, mark ∉ text) :
    splitWhere (· == mark) ([mark].intercalate texts) = texts := by
  induction texts with
  | nil => exact absurd rfl hne
  | cons text rest ih =>
    have htext : splitWhere (· == mark) text = [text] := by
      refine splitWhere_of_not fun c hc => beq_eq_false_iff_ne.mpr ?_
      rintro rfl
      exact h text List.mem_cons_self hc
    cases rest with
    | nil => rw [List.intercalate_singleton, htext]
    | cons next more =>
      have hrest : splitWhere (· == mark) ([mark].intercalate (next :: more)) = next :: more :=
        ih (List.cons_ne_nil _ _) fun t ht => h t (List.mem_cons_of_mem text ht)
      have hparts : splitWhere (· == mark) (text ++ mark :: [mark].intercalate (next :: more))
          = splitWhere (· == mark) text
            ++ splitWhere (· == mark) ([mark].intercalate (next :: more)) := by
        refine splitWhere_append_mark ?_ _ _
        exact beq_self_eq_true mark
      rw [List.intercalate_cons_cons, List.append_assoc, List.singleton_append, hparts, htext,
        hrest, List.singleton_append]

/-- A mark that does not occur before it is where the text is split. -/
theorem splitAtFirst?_append {mark : Char} {before : List Char} (h : mark ∉ before)
    (after : List Char) :
    splitAtFirst? [mark] (before ++ mark :: after) = some (before, after) := by
  induction before with
  | nil => simp [splitAtFirst?]
  | cons c rest ih =>
    have hc : mark ≠ c := fun e => h (by simp [e])
    have hrest : mark ∉ rest := fun m => h (List.mem_cons_of_mem c m)
    simp [splitAtFirst?, hc, ih hrest]

/-- A text is found where no character before it is its first one. -/
theorem splitAtFirst?_append_of_not_mem {first : Char} {more before : List Char}
    (h : first ∉ before) (after : List Char) :
    splitAtFirst? (first :: more) (before ++ (first :: more ++ after)) = some (before, after) := by
  induction before with
  | nil => simp [splitAtFirst?]
  | cons c rest ih =>
    have hc : first ≠ c := fun e => h (by simp [e])
    have hrest : first ∉ rest := fun m => h (List.mem_cons_of_mem c m)
    rw [List.cons_append, splitAtFirst?, if_neg (by simp [hc]), ih hrest, Option.map_some]

/-- **Where a text is found**, the whole is what stands before it, the text and what stands behind
it; the search changes nothing. -/
theorem eq_append_of_splitAtFirst? {mark s before after : List Char}
    (h : splitAtFirst? mark s = some (before, after)) : s = before ++ (mark ++ after) := by
  induction s generalizing before with
  | nil =>
    rw [splitAtFirst?] at h
    split at h
    · next hempty =>
      cases h
      simpa using hempty
    · cases h
  | cons c rest ih =>
    rw [splitAtFirst?] at h
    split at h
    · next hstart =>
      cases h
      exact (List.prefix_iff_eq_append.mp (List.isPrefixOf_iff_prefix.mp hstart)).symm
    · obtain ⟨found, hfound, hpair⟩ := Option.map_eq_some_iff.mp h
      cases hpair
      rw [ih hfound, List.cons_append]

/-- Every text but the first has a separator before it. -/
theorem join_cons (separator s : String) (rest : List String) :
    join separator (s :: rest) = s ++ String.join (rest.map (separator ++ ·)) := by
  induction rest generalizing s with
  | nil => simp [join]
  | cons t rest ih =>
    have hnext : join separator (s :: t :: rest) = join separator ((s ++ separator ++ t) :: rest) :=
      rfl
    rw [hnext, ih, List.map_cons, String.join_cons, String.append_assoc, String.append_assoc,
      String.append_assoc]

theorem join_append_singleton {separator : String} {texts : List String} (h : texts ≠ [])
    (last : String) :
    join separator (texts ++ [last]) = join separator texts ++ separator ++ last := by
  cases texts with
  | nil => exact absurd rfl h
  | cons first rest =>
    rw [List.cons_append, join, join, List.foldl_append]
    rfl

/-- Texts that are joined begin with the first of them. -/
theorem exists_join_cons_eq (separator first : String) (rest : List String) :
    ∃ more, join separator (first :: rest) = first ++ more :=
  ⟨_, join_cons separator first rest⟩

end RuleCatalogue.Text
