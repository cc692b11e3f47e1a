import RuleCatalogue.Proofs.Text.Substring

/-!
# Where a change of a text shows

`Confined special units s` says that a text `s` is woven from whole units and from characters that
are not special: wherever a special character stands in `s`, a unit stands around it.  Escaped
markup is such a text, with the ampersand and the brackets as special characters and the entities
and tags as units.

The search for a text goes on behind an occurrence, or else one character further
(`search_induction`).  It works on the two sides of a seam as on two texts where no occurrence lies
across the seam.  The one reason used for that is a character beside the seam that does not occur in
what is replaced (`Severed`): a space beside a word without spaces, or plain text beside a run of
brackets.

## Main results

* `Confined.replaceAll`: replacing a text that shares no character with a unit breaks no unit.
* `Confined.replaceAll_singleton`: replacing a single character everywhere makes it special.
* `Confined.trim`: trimming cuts into no unit.
* `replaceAll_append`: replacing on both sides of a seam.
* `replaceAll_of_absent`: a text without an occurrence stays as it is.
* `kept_replaceAll`, `mem_replaceAll_or`: what is still there after replacing.
-/

/-! ## Special characters inside whole units -/

namespace RuleCatalogue.Text

/-- **Special characters stand inside whole units only.** -/
inductive Confined (special : List Char) (units : List (List Char)) : List Char → Prop
  | nil : Confined special units []
  | plain {c : Char} {rest : List Char} :
      c ∉ special → Confined special units rest → Confined special units (c :: rest)
  | unit {c : Char} {u rest : List Char} :
      c :: u ∈ units → Confined special units rest → Confined special units (c :: u ++ rest)

/-- **A text that shares no character with a unit.** -/
def Apart (s : List Char) (units : List (List Char)) : Prop :=
  ∀ u ∈ units, ∀ c ∈ s, c ∉ u

/-- Being apart is decided character by character, for the lists of units that occur. -/
theorem apart_iff_all {s : List Char} {units : List (List Char)} :
    Apart s units ↔ units.all fun u => s.all fun c => !u.contains c := by
  simp [Apart]

instance (s : List Char) (units : List (List Char)) : Decidable (Apart s units) :=
  decidable_of_iff' _ apart_iff_all

namespace Confined

variable {special special' : List Char} {units units' : List (List Char)} {s t : List Char}

/-! ## How confined texts are put together -/

/-- A text without special characters is confined, whatever the units. -/
theorem of_not_mem (h : ∀ c ∈ s, c ∉ special) : Confined special units s := by
  induction s with
  | nil => exact .nil
  | cons c rest ih =>
    exact .plain (h c (by simp)) (ih fun d hd => h d (List.mem_cons_of_mem c hd))

/-- A unit is confined by itself. -/
theorem of_unit {u : List Char} (h : u ∈ units) : Confined special units u := by
  cases u with
  | nil => exact .nil
  | cons c rest =>
    have hunit : Confined special units (c :: rest ++ []) := .unit h .nil
    rwa [List.append_nil] at hunit

/-- Confined texts are confined one behind the other. -/
theorem append (hs : Confined special units s) (ht : Confined special units t) :
    Confined special units (s ++ t) := by
  induction hs with
  | nil => exact ht
  | plain hc _ ih => exact .plain hc ih
  | unit hu _ ih =>
    rw [List.append_assoc]
    exact .unit hu ih

/-- Fewer special characters or more units confine more texts. -/
theorem mono (hspecial : special' ⊆ special) (hunits : units ⊆ units')
    (h : Confined special units s) : Confined special' units' s := by
  induction h with
  | nil => exact .nil
  | plain hc _ ih => exact .plain (fun m => hc (hspecial m)) ih
  | unit hu _ ih => exact .unit (hunits hu) ih

/-- A text read from behind is confined to the units read from behind. -/
theorem reverse (h : Confined special units s) :
    Confined special (units.map List.reverse) s.reverse := by
  induction h with
  | nil => exact .nil
  | plain hc _ ih =>
    rw [List.reverse_cons]
    exact ih.append (of_not_mem (by simpa using hc))
  | unit hu _ ih =>
    rw [List.reverse_append]
    exact ih.append (of_unit (List.mem_map_of_mem hu))

/-- A special character that occurs is one of a unit. -/
theorem exists_unit_of_mem (h : Confined special units s) {c : Char} (hc : c ∈ s)
    (hspecial : c ∈ special) : ∃ u ∈ units, c ∈ u := by
  induction h with
  | nil => cases hc
  | plain hplain _ ih =>
    rcases List.mem_cons.mp hc with rfl | hc
    · exact absurd hspecial hplain
    · exact ih hc
  | unit hu _ ih =>
    rcases List.mem_append.mp hc with hc | hc
    · exact ⟨_, hu, hc⟩
    · exact ih hc

/-! ## Deciding -/

/-- Reads a text from the left; `pending` is what the unit at hand still asks for. -/
def check (special : List Char) (units : List (List Char)) (pending : List Char) :
    List Char → Bool
  | [] => pending.isEmpty
  | c :: rest =>
      match pending with
      | d :: more => c == d && check special units more rest
      | [] =>
          (!special.contains c && check special units [] rest)
            || units.any fun unit => unit.head? == some c && check special units unit.tail rest

/-- The check runs along the text with the rest of the current unit pending. -/
theorem of_check {pending : List Char} (h : check special units pending s) :
    ∃ rest, s = pending ++ rest ∧ Confined special units rest := by
  induction s generalizing pending with
  | nil =>
    have hpending : pending = [] := by simpa [check] using h
    exact ⟨[], by simp [hpending], .nil⟩
  | cons c rest ih =>
    cases pending with
    | cons d more =>
      simp only [check, Bool.and_eq_true, beq_iff_eq] at h
      obtain ⟨rfl, hrest⟩ := h
      obtain ⟨tail, rfl, htail⟩ := ih hrest
      exact ⟨tail, rfl, htail⟩
    | nil =>
      simp only [check, Bool.or_eq_true, Bool.and_eq_true, List.any_eq_true] at h
      rcases h with ⟨hplain, hrest⟩ | ⟨unit, hunit, hhead, hrest⟩
      · obtain ⟨tail, htail, hconfined⟩ := ih hrest
        rw [List.nil_append] at htail
        subst htail
        exact ⟨c :: rest, rfl, .plain (by simpa using hplain) hconfined⟩
      · obtain ⟨tail, rfl, htail⟩ := ih hrest
        obtain ⟨u, rfl⟩ := List.head?_eq_some_iff.mp (eq_of_beq hhead)
        exact ⟨c :: u ++ tail, rfl, .unit hunit htail⟩

theorem check_of_unit {u rest : List Char} (h : check special units [] rest) :
    check special units u (u ++ rest) := by
  induction u with
  | nil => exact h
  | cons c u ih => simpa [check] using ih

/-- Every confined text passes the check, which may go through any unit that begins with the
character at hand. -/
theorem check_of_confined (h : Confined special units s) : check special units [] s := by
  induction h with
  | nil => rfl
  | plain hc _ ih => simp [check, hc, ih]
  | @unit c u rest hu _ ih =>
    have hany : units.any fun unit =>
        unit.head? == some c && check special units unit.tail (u ++ rest) :=
      List.any_eq_true.mpr ⟨c :: u, hu, by simpa using check_of_unit ih⟩
    rw [List.cons_append, check, hany, Bool.or_true]

instance : Decidable (Confined special units s) :=
  decidable_of_iff (check special units [] s) ⟨fun h => by
    obtain ⟨rest, rfl, hrest⟩ := of_check h
    exact hrest, check_of_confined⟩

/-! ## Replacing and trimming -/

/-- What follows a text that shares no character with a unit does not begin inside one. -/
theorem of_append_left (hs : Apart s units) (h : Confined special units (s ++ t)) :
    Confined special units t := by
  induction s with
  | nil => exact h
  | cons c rest ih =>
    refine ih (fun u hu d hd => hs u hu d (List.mem_cons_of_mem c hd)) ?_
    generalize hwhole : c :: rest ++ t = whole at h
    cases h with
    | nil => cases hwhole
    | plain hc hrest =>
      cases hwhole
      exact hrest
    | unit hu hrest =>
      have hhead : c = _ := (List.cons.inj hwhole).1
      exact absurd (hhead ▸ List.mem_cons_self) (hs _ hu c List.mem_cons_self)

/-- **Replacing breaks no unit**, if what is replaced shares no character with one and what comes in
is confined itself.  `Apart` is stronger than not occurring: an occurrence may not even begin inside
a unit. -/
theorem replaceAll {first : Char} {more new : List Char}
    (hold : Apart (first :: more) units) (h : Confined special units s)
    (hnew : Confined special units new) :
    Confined special units (Text.replaceAll (first :: more) new s) := by
  have replaced (n : Nat) : ∀ s : List Char, s.length ≤ n → Confined special units s →
      Confined special units (Text.replaceAll (first :: more) new s) := by
    induction n with
    | zero =>
      intro s hlength _
      rw [List.eq_nil_of_length_eq_zero (Nat.le_zero.mp hlength), replaceAll_nil]
      exact .nil
    | succ n ih =>
      intro s hlength h
      cases h with
      | nil =>
        rw [replaceAll_nil]
        exact .nil
      | @plain c rest hc hrest =>
        -- An occurrence that begins at a plain character ends before the next unit begins.
        by_cases hprefix : first :: more <+: c :: rest
        · obtain ⟨tail, htail⟩ := hprefix
          have hconfined : Confined special units (first :: more ++ tail) :=
            htail ▸ Confined.plain hc hrest
          rw [← htail, replaceAll_occurrence_append]
          refine hnew.append (ih tail ?_ (of_append_left hold hconfined))
          have hlengths := congrArg List.length htail
          simp only [List.length_append, List.length_cons] at hlengths hlength
          omega
        · rw [replaceAll_cons_of_not_start hprefix]
          exact .plain hc (ih rest (by simpa using hlength) hrest)
      | @unit c u rest hu hrest =>
        -- No occurrence begins inside a unit, so the search passes it by.
        rw [replaceAll_append_of_not_mem (hold _ hu first List.mem_cons_self)]
        refine .unit hu (ih rest ?_ hrest)
        simp only [List.length_append, List.length_cons] at hlength
        omega
  exact replaced s.length s (Nat.le_refl _) h

/-- **A character that is replaced everywhere** is special afterwards, and what came in is a unit:
it is found nowhere else than in what was put in. -/
theorem replaceAll_singleton {mark : Char} {new : List Char} (hold : ∀ u ∈ units, mark ∉ u)
    (h : Confined special units s) :
    Confined (mark :: special) (new :: units) (Text.replaceAll [mark] new s) := by
  induction h with
  | nil =>
    rw [replaceAll_nil]
    exact .nil
  | @plain c rest hc _ ih =>
    rw [replaceAll_singleton_cons]
    refine append ?_ ih
    by_cases h : mark = c
    · rw [if_pos h]
      exact of_unit List.mem_cons_self
    · rw [if_neg h]
      refine of_not_mem fun d hd => ?_
      rw [List.mem_singleton.mp hd]
      exact fun m => (List.mem_cons.mp m).elim (fun e => h e.symm) hc
  | unit hu _ ih =>
    rw [replaceAll_append_of_not_mem (hold _ hu)]
    exact .unit (List.mem_cons_of_mem new hu) ih

/-- A change of single characters that leaves the units alone and keeps plain characters plain. -/
theorem map {f : Char → Char} (hunits : ∀ u ∈ units, u.map f = u)
    (hplain : ∀ c, c ∉ special → f c ∉ special') (h : Confined special units s) :
    Confined special' units (s.map f) := by
  induction h with
  | nil => exact .nil
  | @plain c rest hc _ ih =>
    rw [List.map_cons]
    exact .plain (hplain c hc) ih
  | unit hu _ ih =>
    rw [List.map_append, hunits _ hu]
    exact .unit hu ih

/-- Dropping blanks in front keeps a text confined, since no unit begins with one. -/
theorem dropWhile_blank (hunits : ∀ u ∈ units, ∀ c ∈ u.head?, isBlank c = false)
    (h : Confined special units s) : Confined special units (s.dropWhile isBlank) := by
  induction h with
  | nil => exact .nil
  | @plain c rest hc hrest ih =>
    by_cases hblank : isBlank c
    · rwa [List.dropWhile_cons_of_pos hblank]
    · rw [List.dropWhile_cons_of_neg hblank]
      exact .plain hc hrest
  | @unit c u rest hu hrest _ =>
    have hblank : isBlank c = false := hunits _ hu c rfl
    rw [List.cons_append, List.dropWhile_cons_of_neg (by simp [hblank])]
    exact .unit hu hrest

/-- **Trimming cuts into no unit**, if the units are trimmed: a unit at an end is kept whole, since
it does not begin or end with a blank. -/
theorem trim (hunits : ∀ u ∈ units, Trimmed u) (h : Confined special units s) :
    Confined special units (Text.trim s) := by
  have hstart : Confined special units (trimStart s) :=
    h.dropWhile_blank fun u hu => (hunits u hu).head
  have hreversed : ∀ u ∈ units.map List.reverse, ∀ c ∈ u.head?, isBlank c = false := by
    intro u hu c hc
    obtain ⟨v, hv, rfl⟩ := List.mem_map.mp hu
    rw [List.head?_reverse] at hc
    exact (hunits v hv).last c hc
  have hend := (hstart.reverse.dropWhile_blank hreversed).reverse
  have hunreversed : (units.map List.reverse).map List.reverse = units := by
    rw [List.map_map]
    exact List.map_id'' List.reverse_reverse units
  rw [hunreversed] at hend
  exact hend

end Confined

end RuleCatalogue.Text

/-! ## Where replacing happens -/

namespace RuleCatalogue.Text

variable {old new s t : List Char}

/-- An occurrence at the front is replaced, and the search goes on behind it. -/
theorem replaceAll_occurrence (hold : old ≠ []) (rest : List Char) :
    replaceAll old new (old ++ rest) = new ++ replaceAll old new rest := by
  obtain ⟨first, more, rfl⟩ := List.exists_cons_of_ne_nil hold
  exact replaceAll_occurrence_append

/-- **The search for a text**: it is at the end, at an occurrence, or at a character where none
begins.  Proofs about `replaceAll` go by these three cases and not by characters. -/
@[elab_as_elim]
theorem search_induction (hold : old ≠ []) {P : List Char → Prop} (nil : P [])
    (occurrence : ∀ rest, P rest → P (old ++ rest))
    (plain : ∀ c rest, ¬ old <+: c :: rest → P rest → P (c :: rest)) (s : List Char) : P s := by
  have searched (n : Nat) : ∀ s : List Char, s.length ≤ n → P s := by
    induction n with
    | zero =>
      intro s hlength
      rw [List.eq_nil_of_length_eq_zero (Nat.le_zero.mp hlength)]
      exact nil
    | succ n ih =>
      intro s hlength
      cases s with
      | nil => exact nil
      | cons c rest =>
        by_cases hstarts : old <+: c :: rest
        · obtain ⟨tail, htail⟩ := hstarts
          have hpos : 0 < old.length := List.length_pos_iff.mpr hold
          rw [← htail] at hlength ⊢
          refine occurrence tail (ih tail ?_)
          rw [List.length_append] at hlength
          omega
        · exact plain c rest hstarts (ih rest (by simpa using hlength))
  exact searched s.length s (Nat.le_refl _)

/-! ## Seams -/

theorem mem_getLast?_of_suffix {c : Char} (hsuffix : t <:+ s) (hc : c ∈ t.getLast?) :
    c ∈ s.getLast? := by
  obtain ⟨before, rfl⟩ := hsuffix
  rw [Option.mem_def] at hc ⊢
  rw [List.getLast?_append, hc]
  rfl

/-- **A seam that no occurrence of `old` lies across**: the character before it or the one behind it
does not occur in `old`. -/
def Severed (old s t : List Char) : Prop :=
  (∀ c ∈ s.getLast?, c ∉ old) ∨ ∀ c ∈ t.head?, c ∉ old

namespace Severed

theorem of_suffix {u : List Char} (h : Severed old s t) (hsuffix : u <:+ s) : Severed old u t :=
  h.imp_left fun hlast c hc => hlast c (mem_getLast?_of_suffix hsuffix hc)

theorem mono {other : List Char} (h : Severed old s t) (hsubset : ∀ c ∈ other, c ∈ old) :
    Severed other s t :=
  h.imp (fun hlast c hc hmem => hlast c hc (hsubset c hmem))
    fun hhead c hc hmem => hhead c hc (hsubset c hmem)

theorem of_not_mem {c : Char} (hc : c ∉ old) (s rest : List Char) : Severed old s (c :: rest) := by
  refine Or.inr fun d hd => ?_
  rwa [← Option.mem_some.mp hd]

theorem of_not_mem_left {mark : Char} (h : mark ∉ s) (t : List Char) : Severed [mark] s t := by
  refine Or.inl fun c hc hmark => h ?_
  exact List.mem_singleton.mp hmark ▸ List.mem_of_mem_getLast? hc

theorem of_not_mem_head? {mark : Char} (s : List Char) (h : mark ∉ t.head?) :
    Severed [mark] s t :=
  Or.inr fun _ hc hmark => h (List.mem_singleton.mp hmark ▸ hc)

/-- An occurrence that begins before a seam ends before it. -/
theorem starts_of_append {c : Char} (h : Severed old (c :: s) t)
    (hstarts : old <+: c :: s ++ t) : old <+: c :: s := by
  obtain ⟨tail, htail⟩ := hstarts
  rcases List.append_eq_append_iff.mp htail with ⟨between, hs, -⟩ | ⟨behind, hold, ht⟩
  · exact ⟨between, hs.symm⟩
  · cases behind with
    | nil => exact ⟨[], by rw [hold, List.append_nil, List.append_nil]⟩
    | cons d behind =>
      -- Both characters beside the seam would stand in `old`.
      exfalso
      subst hold ht
      rcases h with hlast | hhead
      · have hmem := List.getLast_mem (List.cons_ne_nil c s)
        exact hlast _ (List.getLast?_eq_some_getLast _) (List.mem_append_left _ hmem)
      · exact hhead d rfl (List.mem_append_right _ List.mem_cons_self)

end Severed

/-- **Replacing works on both sides of a seam** as on two texts: `Severed` says that no occurrence
reaches across it. -/
theorem replaceAll_append (hold : old ≠ []) (h : Severed old s t) :
    replaceAll old new (s ++ t) = replaceAll old new s ++ replaceAll old new t := by
  induction s using search_induction hold with
  | nil => rw [List.nil_append, replaceAll_nil, List.nil_append]
  | occurrence rest ih =>
    rw [List.append_assoc, replaceAll_occurrence hold, replaceAll_occurrence hold,
      ih (h.of_suffix (List.suffix_append _ rest)), List.append_assoc]
  | plain c rest hstart ih =>
    have hstart' : ¬ old <+: c :: (rest ++ t) := fun hwhole => hstart (h.starts_of_append hwhole)
    rw [List.cons_append, replaceAll_cons_of_not_start hstart',
      replaceAll_cons_of_not_start hstart, ih (h.of_suffix (List.suffix_cons c rest)),
      List.cons_append]

/-- A character that does not occur in what is replaced parts a text. -/
theorem replaceAll_append_cons (hold : old ≠ []) {c : Char} (hc : c ∉ old) (s t : List Char) :
    replaceAll old new (s ++ c :: t) = replaceAll old new s ++ c :: replaceAll old new t := by
  have hstart : ¬ old <+: c :: t := by
    rintro ⟨tail, htail⟩
    obtain ⟨first, more, rfl⟩ := List.exists_cons_of_ne_nil hold
    exact hc ((List.cons.inj htail).1 ▸ List.mem_cons_self)
  rw [replaceAll_append hold (.of_not_mem hc s t), replaceAll_cons_of_not_start hstart]

/-- A single character is replaced in two texts as in one. -/
theorem replaceAll_singleton_append (mark : Char) (new s t : List Char) :
    replaceAll [mark] new (s ++ t) = replaceAll [mark] new s ++ replaceAll [mark] new t := by
  induction s with
  | nil => rw [List.nil_append, replaceAll_nil, List.nil_append]
  | cons c rest ih =>
    rw [List.cons_append, replaceAll_singleton_cons, ih, replaceAll_singleton_cons,
      List.append_assoc]

/-! ## The ends of a text -/

/-- Replacing by what is not empty leaves no text empty. -/
theorem replaceAll_ne_nil (hold : old ≠ []) (hnew : new ≠ []) (h : s ≠ []) :
    replaceAll old new s ≠ [] := by
  cases s using search_induction hold with
  | nil => exact absurd rfl h
  | occurrence rest _ =>
    rw [replaceAll_occurrence hold]
    exact List.append_ne_nil_of_left_ne_nil hnew _
  | plain c rest hstart _ =>
    rw [replaceAll_cons_of_not_start hstart]
    exact List.cons_ne_nil c _

/-- A text begins as it did before the replacement, or as what came in. -/
theorem mem_head?_replaceAll {c : Char} (hold : old ≠ []) (hnew : new ≠ [])
    (h : c ∈ (replaceAll old new s).head?) : c ∈ s.head? ∨ c ∈ new.head? := by
  cases s using search_induction hold with
  | nil =>
    rw [replaceAll_nil] at h
    exact Or.inl h
  | occurrence rest _ =>
    rw [replaceAll_occurrence hold, List.head?_append, List.head?_eq_some_head hnew] at h
    exact Or.inr (List.head?_eq_some_head hnew ▸ h)
  | plain d rest hstart _ =>
    rw [replaceAll_cons_of_not_start hstart] at h
    exact Or.inl h

/-- A text ends as it did before the replacement, or as what came in. -/
theorem mem_getLast?_replaceAll {c : Char} (hold : old ≠ []) (hnew : new ≠ [])
    (h : c ∈ (replaceAll old new s).getLast?) : c ∈ s.getLast? ∨ c ∈ new.getLast? := by
  induction s using search_induction hold with
  | nil =>
    rw [replaceAll_nil] at h
    exact Or.inl h
  | occurrence rest ih =>
    rw [replaceAll_occurrence hold, Option.mem_def, List.getLast?_append,
      Option.or_eq_some_iff] at h
    rcases h with hrest | ⟨-, hlast⟩
    · exact (ih hrest).imp_left fun hlast =>
        mem_getLast?_of_suffix (List.suffix_append _ rest) hlast
    · exact Or.inr hlast
  | plain d rest hstart ih =>
    rw [replaceAll_cons_of_not_start hstart] at h
    by_cases hrest : rest = []
    · subst hrest
      rw [replaceAll_nil] at h
      exact Or.inl h
    · have hne : replaceAll old new rest ≠ [] := replaceAll_ne_nil hold hnew hrest
      obtain ⟨e, tail, htail⟩ := List.exists_cons_of_ne_nil hne
      rw [htail, List.getLast?_cons_cons, ← htail] at h
      exact (ih h).imp_left fun hlast => mem_getLast?_of_suffix (List.suffix_cons d rest) hlast

/-- A seam beside a mark stays one, if what comes in neither begins nor ends with the mark. -/
theorem Severed.replaceAll {mark : Char} (hold : old ≠ []) (hnew : new ≠ [])
    (hhead : mark ∉ new.head?) (hlast : mark ∉ new.getLast?) (h : Severed [mark] s t) :
    Severed [mark] (Text.replaceAll old new s) (Text.replaceAll old new t) := by
  refine h.imp (fun hs c hc hmark => ?_) (fun ht c hc hmark => ?_)
  · rcases mem_getLast?_replaceAll hold hnew hc with hbefore | hcame
    · exact hs c hbefore hmark
    · exact hlast (List.mem_singleton.mp hmark ▸ hcame)
  · rcases mem_head?_replaceAll hold hnew hc with hbefore | hcame
    · exact ht c hbefore hmark
    · exact hhead (List.mem_singleton.mp hmark ▸ hcame)

/-! ## What is there afterwards -/

/-- **A text without an occurrence** stays as it is.  The search never finds one, by
`search_induction`. -/
theorem replaceAll_of_absent (hold : old ≠ []) (h : ¬ old <:+: s) : replaceAll old new s = s := by
  induction s using search_induction hold with
  | nil => exact replaceAll_nil _ _
  | occurrence rest _ => exact absurd (List.prefix_append _ rest).isInfix h
  | plain c rest hstart ih =>
    have hrest : ¬ old <:+: rest := fun hpart => h (hpart.trans (List.suffix_cons c rest).isInfix)
    rw [replaceAll_cons_of_not_start hstart, ih hrest]

/-- What is written was there or is of the new text. -/
theorem mem_of_mem_replaceAll {c : Char} (hold : old ≠ []) (h : c ∈ replaceAll old new s) :
    c ∈ s ∨ c ∈ new := by
  induction s using search_induction hold with
  | nil =>
    rw [replaceAll_nil] at h
    exact Or.inl h
  | occurrence rest ih =>
    rw [replaceAll_occurrence hold, List.mem_append] at h
    rcases h with hcame | hrest
    · exact Or.inr hcame
    · exact (ih hrest).imp_left fun hmem => List.mem_append_right _ hmem
  | plain d rest hstart ih =>
    rw [replaceAll_cons_of_not_start hstart, List.mem_cons] at h
    rcases h with rfl | hrest
    · exact Or.inl List.mem_cons_self
    · exact (ih hrest).imp_left fun hmem => List.mem_cons_of_mem d hmem

/-- A character that the old text lacks is never lost. -/
theorem mem_replaceAll {c : Char} (hold : old ≠ []) (hc : c ∉ old) (h : c ∈ s) :
    c ∈ replaceAll old new s := by
  obtain ⟨before, after, rfl⟩ := List.append_of_mem h
  rw [replaceAll_append_cons hold hc]
  exact List.mem_append_right _ List.mem_cons_self

/-- A character is still there, or what came in is. -/
theorem mem_replaceAll_or {c : Char} (hold : old ≠ []) (h : c ∈ s) :
    c ∈ replaceAll old new s ∨ new <:+: replaceAll old new s := by
  induction s using search_induction hold with
  | nil => exact absurd h List.not_mem_nil
  | occurrence rest _ =>
    rw [replaceAll_occurrence hold]
    exact Or.inr (List.prefix_append new _).isInfix
  | plain d rest hstart ih =>
    rw [replaceAll_cons_of_not_start hstart]
    rcases List.mem_cons.mp h with rfl | hrest
    · exact Or.inl List.mem_cons_self
    · exact (ih hrest).imp (List.mem_cons_of_mem d) fun hpart =>
        hpart.trans (List.suffix_cons d _).isInfix

/-- **A part that shares no character** with what is replaced is still there, unbroken, however
often the rest is replaced. -/
theorem kept_replaceAll {u : List Char} (hold : old ≠ []) (hu : u ≠ [])
    (hapart : ∀ c ∈ u, c ∉ old) (h : u <:+: s) : u <:+: replaceAll old new s := by
  obtain ⟨before, after, rfl⟩ := h
  have hbefore : Severed old before (u ++ after) := by
    refine Or.inr fun c hc => hapart c ?_
    rw [List.head?_append, List.head?_eq_some_head hu] at hc
    exact Option.some.inj hc ▸ List.head_mem hu
  have hafter : Severed old u after :=
    Or.inl fun c hc => hapart c (List.mem_of_mem_getLast? hc)
  have habsent : ¬ old <:+: u := by
    intro hpart
    obtain ⟨first, more, rfl⟩ := List.exists_cons_of_ne_nil hold
    have hfirst : first ∈ u := hpart.subset List.mem_cons_self
    exact hapart first hfirst List.mem_cons_self
  rw [List.append_assoc, replaceAll_append hold hbefore, replaceAll_append hold hafter,
    replaceAll_of_absent hold habsent]
  exact ⟨_, _, List.append_assoc _ _ _⟩

/-- A character does not become more frequent, if it is not in what comes in. -/
theorem count_replaceAll_le {c : Char} (hold : old ≠ []) (hnew : c ∉ new) :
    (replaceAll old new s).count c ≤ s.count c := by
  induction s using search_induction hold with
  | nil => exact Nat.le_of_eq (congrArg (List.count c) (replaceAll_nil old new))
  | occurrence rest ih =>
    rw [replaceAll_occurrence hold, List.count_append, List.count_append,
      List.count_eq_zero.mpr hnew]
    omega
  | plain d rest hstart ih =>
    rw [replaceAll_cons_of_not_start hstart, List.count_cons, List.count_cons]
    omega

end RuleCatalogue.Text
