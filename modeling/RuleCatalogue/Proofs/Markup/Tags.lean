import RuleCatalogue.Proofs.Markup

/-!
# Where tags come from

Every opening tag of converted prose was written for an opening bracket of the line or for the
character that opening brackets are set aside as, and every closing tag likewise
(`placesOf_tags_prose`).

## Main definitions

* `placesOf` counts the places of a text at which one of some texts begins.
* `Side` names what belongs to opening and what to closing tags.
* `Side.weight` counts the tags of one side in a text together with the marks that may become one.

## Design notes

No replacement adds to the weight of a side: a tag that comes in replaces at least one mark.  Nor
does it matter what the text looks like otherwise, since a tag is known by its bracket and the
character behind it, and no replacement changes what that character tells.
-/

namespace RuleCatalogue.Markup

open Text

/-- **The number of places at which one of the texts begins.** -/
def placesOf (texts : List (List Char)) : List Char → Nat
  | [] => 0
  | c :: rest => (if texts.any (·.isPrefixOf (c :: rest)) then 1 else 0) + placesOf texts rest

/-- **The two sides of emphasis.** -/
inductive Side
  | opening
  | closing

namespace Side

/-- The bracket that is written on this side. -/
def bracket : Side → Char
  | opening => '<'
  | closing => '>'

/-- The character that the bracket is set aside as. -/
def mark : Side → Char
  | opening => openMark
  | closing => closeMark

/-- The tags of this side. -/
def tags : Side → List (List Char)
  | opening => ["<i>".toList, "<b>".toList, "<code>".toList]
  | closing => ["</i>".toList, "</b>".toList, "</code>".toList]

/-- Whether a bracket with this character behind it may begin a tag of this side. -/
def begins : Side → Option Char → Bool
  | opening, next => next != some '/'
  | closing, next => next == some '/'

/-- **What a text weighs on this side**: its brackets that may begin a tag, and its marks. -/
def weight (side : Side) : List Char → Nat
  | [] => 0
  | c :: rest =>
      (if c = '<' ∧ side.begins rest.head? then 1 else 0) + (if c = side.mark then 1 else 0)
        + side.weight rest

end Side

/-! ## Places -/

theorem placesOf_le_append_left (texts : List (List Char)) (s t : List Char) :
    placesOf texts t ≤ placesOf texts (s ++ t) := by
  induction s with
  | nil => exact Nat.le_refl _
  | cons c rest ih => exact Nat.le_add_left_of_le ih

theorem placesOf_le_append_right (texts : List (List Char)) (s t : List Char) :
    placesOf texts s ≤ placesOf texts (s ++ t) := by
  induction s with
  | nil => exact Nat.zero_le _
  | cons c rest ih =>
    rw [List.cons_append, placesOf, placesOf]
    refine Nat.add_le_add ?_ ih
    by_cases hany : texts.any (·.isPrefixOf (c :: rest))
    · have hwhole : texts.any (·.isPrefixOf (c :: (rest ++ t))) := by
        obtain ⟨u, hu, hstarts⟩ := List.any_eq_true.mp hany
        refine List.any_eq_true.mpr ⟨u, hu, List.isPrefixOf_iff_prefix.mpr ?_⟩
        exact (List.isPrefixOf_iff_prefix.mp hstarts).trans (List.prefix_append (c :: rest) t)
      rw [if_pos hany, if_pos hwhole]
    · rw [if_neg hany]
      exact Nat.zero_le _

theorem placesOf_mono {texts : List (List Char)} {s t : List Char} (h : s <:+: t) :
    placesOf texts s ≤ placesOf texts t := by
  obtain ⟨before, after, rfl⟩ := h
  rw [List.append_assoc]
  exact (placesOf_le_append_right texts s after).trans (placesOf_le_append_left texts before _)

theorem placesOf_pos {texts : List (List Char)} {u s : List Char} (hu : u ∈ texts) (hne : u ≠ [])
    (h : u <:+: s) : 0 < placesOf texts s := by
  refine Nat.lt_of_lt_of_le ?_ (placesOf_mono h)
  cases u with
  | nil => exact absurd rfl hne
  | cons c rest =>
    have hany : texts.any (·.isPrefixOf (c :: rest)) :=
      List.any_eq_true.mpr ⟨_, hu, List.isPrefixOf_iff_prefix.mpr (List.prefix_refl _)⟩
    rw [placesOf, if_pos hany]
    omega

/-! ## Weights -/

namespace Side

variable (side : Side)

/-- A tag of this side is a bracket with a character behind it that tells the side. -/
theorem exists_eq_of_mem_tags {tag : List Char} (h : tag ∈ side.tags) :
    ∃ next more, tag = '<' :: next :: more ∧ side.begins (some next) := by
  have hshape : ∀ tag ∈ side.tags,
      tag.head? = some '<' ∧ tag.tail ≠ [] ∧ side.begins tag.tail.head? := by
    cases side <;> decide
  obtain ⟨hhead, htail, hbegins⟩ := hshape tag h
  obtain ⟨rest, rfl⟩ := List.head?_eq_some_iff.mp hhead
  obtain ⟨next, more, rfl⟩ := List.exists_cons_of_ne_nil htail
  exact ⟨next, more, rfl, hbegins⟩

theorem ne_nil_of_mem_tags {tag : List Char} (h : tag ∈ side.tags) : tag ≠ [] := by
  obtain ⟨next, more, rfl, -⟩ := side.exists_eq_of_mem_tags h
  exact List.cons_ne_nil _ _

/-- Each tag of a text weighs. -/
theorem placesOf_tags_le (s : List Char) : placesOf side.tags s ≤ side.weight s := by
  induction s with
  | nil => exact Nat.le_refl _
  | cons c rest ih =>
    rw [placesOf, weight]
    refine Nat.add_le_add ?_ ih
    by_cases hany : side.tags.any (·.isPrefixOf (c :: rest))
    · obtain ⟨tag, htag, hstarts⟩ := List.any_eq_true.mp hany
      obtain ⟨tail, htail⟩ := List.isPrefixOf_iff_prefix.mp hstarts
      obtain ⟨next, more, rfl, hbegins⟩ := side.exists_eq_of_mem_tags htag
      obtain ⟨rfl, rfl⟩ := List.cons.inj htail
      have hbracket : '<' = '<' ∧ side.begins ((next :: more).append tail).head? := ⟨rfl, hbegins⟩
      rw [if_pos hany, if_pos hbracket]
      exact Nat.le_add_right 1 _
    · rw [if_neg hany]
      exact Nat.zero_le _

/-- A text without brackets weighs as much as its marks. -/
theorem weight_of_not_mem {s : List Char} (h : '<' ∉ s) : side.weight s = s.count side.mark := by
  induction s with
  | nil => rfl
  | cons c rest ih =>
    have hc : c ≠ '<' := fun hbracket => h (hbracket ▸ List.mem_cons_self)
    have hrest : '<' ∉ rest := fun hmem => h (List.mem_cons_of_mem c hmem)
    rw [weight, ih hrest, List.count_cons, Nat.add_comm]
    simp [hc]

/-- The weights of two texts add up, if no bracket stands at the end of the first. -/
theorem weight_append {s : List Char} (hlast : '<' ∉ s.getLast?) (t : List Char) :
    side.weight (s ++ t) = side.weight s + side.weight t := by
  induction s with
  | nil => exact (Nat.zero_add _).symm
  | cons c rest ih =>
    cases rest with
    | nil =>
      have hc : c ≠ '<' := by
        rintro rfl
        exact hlast rfl
      simp [weight, hc]
    | cons d more =>
      rw [List.getLast?_cons_cons] at hlast
      have hwhole : side.weight (c :: (d :: more ++ t))
          = (if c = '<' ∧ side.begins (some d) then 1 else 0) + (if c = side.mark then 1 else 0)
            + side.weight (d :: more ++ t) := rfl
      rw [List.cons_append, hwhole, ih hlast, ← Nat.add_assoc]
      rfl

/-- **A replacement that leaves a side alone or makes a tag of marks**: what comes in weighs no more
than what it replaces, and tells a bracket before it the same. -/
structure Keeps (old new : List Char) : Prop where
  nonempty : old ≠ [] ∧ new ≠ []
  weight_le : side.weight new ≤ side.weight old
  last : '<' ∉ old.getLast? ∧ '<' ∉ new.getLast?
  head : side.begins new.head? = side.begins old.head?

theorem keeps_iff {old new : List Char} :
    side.Keeps old new ↔ (old ≠ [] ∧ new ≠ []) ∧ side.weight new ≤ side.weight old
      ∧ ('<' ∉ old.getLast? ∧ '<' ∉ new.getLast?) ∧ side.begins new.head? = side.begins old.head? :=
  ⟨fun h => ⟨h.nonempty, h.weight_le, h.last, h.head⟩, fun h => ⟨h.1, h.2.1, h.2.2.1, h.2.2.2⟩⟩

instance (old new : List Char) : Decidable (side.Keeps old new) :=
  decidable_of_iff' _ side.keeps_iff

variable {old new : List Char}

/-- What stands behind a bracket tells the same after the replacement. -/
theorem begins_replaceAll (h : side.Keeps old new) (s : List Char) :
    side.begins (replaceAll old new s).head? = side.begins s.head? := by
  obtain ⟨hold, hnew⟩ := h.nonempty
  cases s using search_induction hold with
  | nil => rw [replaceAll_nil]
  | occurrence rest _ =>
    rw [replaceAll_occurrence hold, List.head?_append, List.head?_append,
      List.head?_eq_some_head hold, List.head?_eq_some_head hnew, Option.some_or, Option.some_or,
      ← List.head?_eq_some_head hold, ← List.head?_eq_some_head hnew]
    exact h.head
  | plain c rest hstart _ =>
    rw [replaceAll_cons_of_not_start hstart]
    rfl

theorem weight_replaceAll_le (h : side.Keeps old new) (s : List Char) :
    side.weight (replaceAll old new s) ≤ side.weight s := by
  have hold : old ≠ [] := h.nonempty.1
  induction s using search_induction hold with
  | nil => rw [replaceAll_nil]
  | occurrence rest ih =>
    rw [replaceAll_occurrence hold, side.weight_append h.last.2, side.weight_append h.last.1]
    exact Nat.add_le_add h.weight_le ih
  | plain c rest hstart ih =>
    rw [replaceAll_cons_of_not_start hstart, weight, weight, side.begins_replaceAll h]
    exact Nat.add_le_add_left ih _

/-- Writing the tags adds no weight. -/
theorem weight_writeTags_le (s : List Char) : side.weight (writeTags s) ≤ side.weight s := by
  have hruns : ∀ pair ∈ runs, side.Keeps pair.1 pair.2 := by cases side <;> decide
  rw [writeTags_eq]
  refine replaceEach_induction (P := (side.weight · ≤ side.weight s)) ?_ (Nat.le_refl _)
  intro pair hpair t ht
  exact (side.weight_replaceAll_le (hruns pair hpair) t).trans ht

/-! ## Brackets and marks -/

theorem setAside_eq_mark_iff {c : Char} :
    setAside c = side.mark ↔ c = side.bracket ∨ c = side.mark := by
  rw [setAside]
  cases side with
  | opening =>
    by_cases hopen : c = '<'
    · simp [hopen, mark, bracket]
    · by_cases hclose : c = '>'
      · subst hclose
        decide
      · simp [hopen, hclose, mark, bracket]
  | closing =>
    by_cases hclose : c = '>'
    · subst hclose
      decide
    · by_cases hopen : c = '<'
      · subst hopen
        decide
      · simp [hopen, hclose, mark, bracket]

theorem count_map_setAside (s : List Char) :
    (s.map setAside).count side.mark = s.count side.bracket + s.count side.mark := by
  have hne : side.bracket ≠ side.mark := by cases side <;> decide
  induction s with
  | nil => rfl
  | cons c rest ih =>
    rw [List.map_cons, List.count_cons, List.count_cons, List.count_cons, ih]
    by_cases hbracket : c = side.bracket
    · have hmark : c ≠ side.mark := fun h => hne (hbracket.symm.trans h)
      simp [side.setAside_eq_mark_iff, hbracket, hne]
      omega
    · by_cases hmark : c = side.mark
      · simp [side.setAside_eq_mark_iff, hmark, hne.symm]
        omega
      · simp [side.setAside_eq_mark_iff, hbracket, hmark]

/-- Escaping adds no bracket and no mark. -/
theorem count_escapeProse_le (s : List Char) {c : Char} (hc : c = side.bracket ∨ c = side.mark) :
    (escapeProse s).count c ≤ s.count c := by
  have hspace : c ≠ ' ' := by
    rcases hc with rfl | rfl <;> cases side <;> decide
  have hescapes : ∀ pair ∈ escapes, pair.1 ≠ [] ∧ c ∉ pair.2 := by
    rcases hc with rfl | rfl <;> cases side <;> decide
  have hpadded : (' ' :: s ++ [' ']).count c = s.count c := by
    simp [hspace.symm]
  rw [escapeProse_eq, ← hpadded]
  exact count_replaceEach_le hescapes _

/-- **Tags are bounded by brackets and marks**: each tag takes the place of a run of marks, and a
mark comes from a bracket or was in the line. -/
theorem placesOf_tags_prose_le (s : List Char) :
    placesOf side.tags (prose s) ≤ s.count side.bracket + s.count side.mark := by
  have hbracket : '<' ∉ (escapeProse s).map setAside := by
    intro hmem
    have hunits : ∀ u ∈ entities, '<' ∉ u := by decide
    obtain ⟨u, hu, hmem⟩ := (confined_setAside s).exists_unit_of_mem hmem (by decide)
    exact hunits u hu hmem
  calc placesOf side.tags (prose s)
      ≤ placesOf side.tags (writeTags ((escapeProse s).map setAside)) :=
        placesOf_mono (isInfix_trim _)
    _ ≤ side.weight (writeTags ((escapeProse s).map setAside)) := side.placesOf_tags_le _
    _ ≤ side.weight ((escapeProse s).map setAside) := side.weight_writeTags_le _
    _ = ((escapeProse s).map setAside).count side.mark := side.weight_of_not_mem hbracket
    _ = (escapeProse s).count side.bracket + (escapeProse s).count side.mark :=
        side.count_map_setAside _
    _ ≤ s.count side.bracket + s.count side.mark :=
        Nat.add_le_add (side.count_escapeProse_le s (Or.inl rfl))
          (side.count_escapeProse_le s (Or.inr rfl))

/-- A mark that is replaced leaves a tag. -/
theorem exists_tag_of_mark_mem {s : List Char} (h : side.mark ∈ s) :
    ∃ tag ∈ side.tags, tag <:+: prose s := by
  have hescapes : ∀ pair ∈ escapes, pair.1 ≠ [] ∧ side.mark ∉ pair.1 := by cases side <;> decide
  have hruns : ∀ pair ∈ runs, pair.1 ≠ [] ∧ Apart pair.1 side.tags
      ∧ (side.mark ∈ pair.1 → pair.2 ∈ side.tags) := by
    cases side <;> decide
  have hescaped : side.mark ∈ escapeProse s := by
    rw [escapeProse_eq]
    exact mem_replaceEach hescapes (by simp [h])
  have haside : side.mark ∈ (escapeProse s).map setAside :=
    List.mem_map.mpr ⟨_, hescaped, side.setAside_eq_mark_iff.mpr (Or.inr rfl)⟩
  -- From step to step the mark is still there, or a tag that came in for it.
  have hwritten : side.mark ∈ writeTags ((escapeProse s).map setAside)
      ∨ ∃ tag ∈ side.tags, tag <:+: writeTags ((escapeProse s).map setAside) := by
    rw [writeTags_eq]
    refine replaceEach_induction
      (P := fun t => side.mark ∈ t ∨ ∃ tag ∈ side.tags, tag <:+: t) ?_ (Or.inl haside)
    rintro pair hpair t (hmark | ⟨tag, htag, hpart⟩)
    · obtain ⟨hold, -, hnew⟩ := hruns pair hpair
      by_cases hmem : side.mark ∈ pair.1
      · exact (mem_replaceAll_or hold hmark).imp_right fun hpart => ⟨pair.2, hnew hmem, hpart⟩
      · exact Or.inl (mem_replaceAll hold hmem hmark)
    · obtain ⟨hold, hapart, -⟩ := hruns pair hpair
      exact Or.inr ⟨tag, htag, kept_replaceAll hold (side.ne_nil_of_mem_tags htag)
        (fun c hc hmem => hapart tag htag c hmem hc) hpart⟩
  have hunmarked : side.mark ∉ writeTags ((escapeProse s).map setAside) := by
    intro hmem
    have hspecial : side.mark ∈ closeMark :: openMark :: reserved := by cases side <;> decide
    have hunits : ∀ u ∈ entities ++ Markup.tags, side.mark ∉ u := by cases side <;> decide
    obtain ⟨u, hu, hmem⟩ :=
      (confined_writeTags (confined_setAside s)).exists_unit_of_mem hmem hspecial
    exact hunits u hu hmem
  have htrimmed : ∀ tag ∈ side.tags, Trimmed tag := by cases side <;> decide
  obtain ⟨tag, htag, hpart⟩ := hwritten.resolve_left hunmarked
  exact ⟨tag, htag, infix_trim (side.ne_nil_of_mem_tags htag) (htrimmed tag htag) hpart⟩

end Side

/-- **Tags come from brackets and from the marks of the conversion.**  On each side a line has no
more tags than brackets and marks together when it is converted; so a line without the marks has no
more tags than brackets.  Where there are no brackets, there are tags if and only if there is a
mark. -/
theorem placesOf_tags_prose (s : List Char) (side : Side) :
    placesOf side.tags (prose s) ≤ s.count side.bracket + s.count side.mark
      ∧ (side.bracket ∉ s → (0 < placesOf side.tags (prose s) ↔ side.mark ∈ s)) := by
  refine ⟨side.placesOf_tags_prose_le s, fun hbracket => ⟨fun hpos => ?_, fun hmark => ?_⟩⟩
  · have hbound := side.placesOf_tags_prose_le s
    rw [List.count_eq_zero.mpr hbracket] at hbound
    exact List.count_pos_iff.mp (by omega)
  · obtain ⟨tag, htag, hpart⟩ := side.exists_tag_of_mark_mem hmark
    exact placesOf_pos htag (side.ne_nil_of_mem_tags htag) hpart

/-- A line whose only brackets are on the other side, with marks in it. -/
theorem placesOf_tags_prose_marked :
    let s := ['a', openMark, openMark, 'b', '>']
    Side.opening.bracket ∉ s ∧ Side.opening.mark ∈ s
      ∧ 0 < placesOf Side.opening.tags (prose s) := by
  intro s
  have hbracket : Side.opening.bracket ∉ s := by decide
  have hmark : Side.opening.mark ∈ s := by decide
  exact ⟨hbracket, hmark, ((placesOf_tags_prose s .opening).2 hbracket).mpr hmark⟩

/-- **Brackets alone do not bound the tags**: the mark becomes a tag in a line without brackets. -/
theorem prose_openMark :
    [openMark].count Side.opening.bracket = 0 ∧ prose [openMark] = "<i>".toList
      ∧ placesOf Side.opening.tags (prose [openMark]) = 1 := by
  decide +kernel

end RuleCatalogue.Markup
