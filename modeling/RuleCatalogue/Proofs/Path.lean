import Mathlib.Data.List.Basic
import Mathlib.Data.List.Induction
import RuleCatalogue.Environment
import RuleCatalogue.Proofs.Text.Substring

/-!
# Laws of paths

The text of a path from the root begins with a slash; its other characters are those of the
segments.  A path without double points (`Path.resolved`) has no segments but those it had before,
and it ends as before unless a double point stands at its end.

## Main results

* `Path.toList_text` and `Path.mem_text_iff`: the characters of a text, from those of the segments.
* `Path.not_mem_segments_resolved` and `Path.resolved_snoc`: what resolving leaves.
* `Path.exists_ofText_append`: what is appended to a text makes its last segment longer.
* `Environment.expand_of_not_mem` and `Environment.expandHome_of_head?`: texts that refer to
  nothing.

## Design notes

A path is a list of segments and an anchor, and its text is made of them; a text is taken apart by
`Path.ofText`.  The two do not undo each other for every text, since empty segments and single
points are dropped, so each law here says on which side of `Path.ofText` it stands.
-/

namespace RuleCatalogue

namespace Text

/-- The characters of joined texts, apart from those of the separator. -/
theorem mem_toList_join_iff {separator : String} {c : Char} (hc : c ∉ separator.toList)
    {texts : List String} :
    c ∈ (join separator texts).toList ↔ ∃ text ∈ texts, c ∈ text.toList := by
  induction texts using List.reverseRecOn with
  | nil => simp [join]
  | append_singleton init last ih =>
    by_cases hinit : init = []
    · simp [hinit, join]
    · rw [join_append_singleton hinit]
      simp [ih, hc, or_and_right, exists_or]

/-- **Splitting undoes joining**, where no mark stands in the texts.  A list of no texts would be
joined to the empty text, which splits into one, hence `hne`. -/
theorem splitWhere_join {texts : List String} (hne : texts ≠ [])
    (h : ∀ text ∈ texts, '/' ∉ text.toList) :
    splitWhere (· == '/') (join "/" texts).toList = texts.map String.toList := by
  induction texts using List.reverseRecOn with
  | nil => exact absurd rfl hne
  | append_singleton init last ih =>
    have hlast : splitWhere (· == '/') last.toList = [last.toList] := by
      refine splitWhere_of_not fun c hc => beq_eq_false_iff_ne.mpr ?_
      rintro rfl
      exact h last (List.mem_append_right init List.mem_cons_self) hc
    by_cases hinit : init = []
    · subst hinit
      exact hlast
    · rw [join_append_singleton hinit, String.toList_append, String.toList_append,
        List.append_assoc]
      show splitWhere _ (_ ++ '/' :: last.toList) = _
      rw [splitWhere_append_mark rfl, hlast,
        ih hinit fun text htext => h text (List.mem_append_left _ htext), List.map_append]
      rfl

end Text

namespace Path

variable {p base : Path}

theorem isAbsolute_within (h : base.isAbsolute) (p : Path) : (p.within base).isAbsolute := by
  unfold within
  split
  · assumption
  · exact h

/-! ## The text of a path from the root -/

theorem toList_text (h : p.isAbsolute) :
    p.text.toList = p.anchor.text.toList ++ (Text.join "/" p.segments).toList := by
  obtain ⟨anchor, segments⟩ := p
  cases anchor with
  | here => exact nomatch h
  | root => simp [text]
  | doubleRoot => simp [text]

/-- **The text of a path from the root begins with a slash**, also where it has two of them for an
anchor. -/
theorem head?_text (h : p.isAbsolute) : p.text.toList.head? = some '/' := by
  rw [toList_text h]
  obtain ⟨anchor, segments⟩ := p
  cases anchor with
  | here => exact nomatch h
  | root => simp [Anchor.text]
  | doubleRoot => simp [Anchor.text]

/-- A NUL in the text of a path stands in a segment. -/
theorem mem_text_iff (h : p.isAbsolute) {c : Char} (hc : c ≠ '/') :
    c ∈ p.text.toList ↔ ∃ segment ∈ p.segments, c ∈ segment.toList := by
  have hseparator : c ∉ ("/" : String).toList := by simpa using hc
  have hanchor : c ∉ p.anchor.text.toList := by
    cases p.anchor <;> simp [Anchor.text, hc]
  rw [toList_text h, List.mem_append, Text.mem_toList_join_iff hseparator]
  simp [hanchor]

/-- The pieces of the text of a path are its segments; the slashes in front have nothing between
them. -/
theorem mem_splitWhere_text (h : p.isAbsolute) (hslash : ∀ s ∈ p.segments, '/' ∉ s.toList)
    {piece : List Char} (hpiece : piece ∈ Text.splitWhere (· == '/') p.text.toList) :
    piece = [] ∨ ∃ s ∈ p.segments, piece = s.toList := by
  have hjoined {piece : List Char}
      (hpiece : piece ∈ Text.splitWhere (· == '/') (Text.join "/" p.segments).toList) :
      piece = [] ∨ ∃ s ∈ p.segments, piece = s.toList := by
    by_cases hsegments : p.segments = []
    · rw [hsegments] at hpiece
      exact Or.inl (List.mem_singleton.mp hpiece)
    · rw [Text.splitWhere_join hsegments hslash] at hpiece
      obtain ⟨s, hs, rfl⟩ := List.mem_map.mp hpiece
      exact Or.inr ⟨s, hs, rfl⟩
  have hanchor : ∀ c ∈ p.anchor.text.toList, (c == '/') = true := by
    cases p.anchor <;> simp [Anchor.text]
  rw [toList_text h] at hpiece
  exact (Text.mem_splitWhere_marks_append hanchor hpiece).elim Or.inl hjoined

/-! ## Paths without double points -/

theorem mem_push {isRooted : Bool} {before : List String} {segment s : String}
    (h : s ∈ push isRooted before segment) : s ∈ before ∨ s = segment := by
  unfold push at h
  split at h
  · split at h
    · split at h
      · exact nomatch h
      · exact Or.inr (List.mem_singleton.mp h)
    · exact (List.mem_append.mp h).imp_right List.mem_singleton.mp
    · exact Or.inl (List.dropLast_subset _ h)
  · exact (List.mem_append.mp h).imp_right List.mem_singleton.mp

theorem mem_foldl_push {isRooted : Bool} {before segments : List String} {s : String}
    (h : s ∈ segments.foldl (push isRooted) before) : s ∈ before ∨ s ∈ segments := by
  induction segments generalizing before with
  | nil => exact Or.inl h
  | cons segment rest ih =>
    rcases ih h with hbefore | hrest
    · rcases mem_push hbefore with hbefore | rfl
      · exact Or.inl hbefore
      · exact Or.inr List.mem_cons_self
    · exact Or.inr (List.mem_cons_of_mem segment hrest)

/-- **No segment is new**: resolving removes double points and what they lead back from, and adds
nothing. -/
theorem mem_segments_resolved {s : String} (h : s ∈ p.resolved.segments) : s ∈ p.segments :=
  (mem_foldl_push h).resolve_left fun hnil => nomatch hnil

theorem push_of_not_mem {before : List String} (h : ".." ∉ before) (segment : String) :
    push true before segment
      = if segment = ".." then before.dropLast else before ++ [segment] := by
  unfold push
  split
  · split
    · next hnone => rw [List.getLast?_eq_none_iff.mp hnone]; rfl
    · next hlast => exact absurd (List.mem_of_getLast? hlast) h
    · rfl
  · rfl

theorem not_mem_push {before : List String} (h : ".." ∉ before) (segment : String) :
    ".." ∉ push true before segment := by
  rw [push_of_not_mem h]
  split
  · exact fun hmem => h (List.dropLast_subset _ hmem)
  · next hsegment =>
    intro hmem
    rcases List.mem_append.mp hmem with hbefore | hlast
    · exact h hbefore
    · exact hsegment (List.mem_singleton.mp hlast).symm

/-- **No double point is left** in a path from the root; in any other path those at the front stay.
-/
theorem not_mem_segments_resolved (h : p.isAbsolute) : ".." ∉ p.resolved.segments := by
  have hfold (before segments : List String) (hbefore : ".." ∉ before) :
      ".." ∉ segments.foldl (push true) before := by
    induction segments generalizing before with
    | nil => exact hbefore
    | cons segment rest ih => exact ih _ (not_mem_push hbefore segment)
  rw [resolved, h]
  exact hfold [] p.segments List.not_mem_nil

/-- The segments of a text hold characters of the text. -/
theorem mem_of_mem_segments {s segment : String} {c : Char}
    (h : segment ∈ (ofText s).segments) (hc : c ∈ segment.toList) : c ∈ s.toList := by
  obtain ⟨piece, hpiece, rfl⟩ := List.mem_map.mp h
  rw [String.toList_ofList] at hc
  exact Text.mem_of_mem_splitWhere (List.mem_filter.mp hpiece).1 hc

theorem ne_of_mem_segments {s segment : String} (h : segment ∈ (ofText s).segments) :
    segment ≠ "" ∧ segment ≠ "." := by
  obtain ⟨piece, hpiece, rfl⟩ := List.mem_map.mp h
  obtain ⟨hempty, hpoint⟩ := Bool.and_eq_true_iff.mp (List.mem_filter.mp hpiece).2
  constructor
  · intro e
    rw [String.ofList_eq_empty_iff.mp e] at hempty
    exact nomatch hempty
  · intro e
    have hchars : piece = ['.'] := by rw [← String.toList_ofList (l := piece), e]; rfl
    rw [hchars] at hpoint
    exact nomatch hpoint

/-! ## The last segment -/

/-- A path with one more segment. -/
def snoc (p : Path) (segment : String) : Path :=
  { p with segments := p.segments ++ [segment] }

variable {s segment : String}

theorem isAbsolute_snoc (p : Path) (segment : String) :
    (p.snoc segment).isAbsolute = p.isAbsolute :=
  rfl

theorem within_snoc (p base : Path) (segment : String) :
    (p.snoc segment).within base = (p.within base).snoc segment := by
  rw [within, within, isAbsolute_snoc]
  split
  · rfl
  · rw [snoc, snoc, List.append_assoc]

/-- **The last segment stays**, unless it is a double point, so a file keeps its name when its path
is resolved. -/
theorem resolved_snoc (p : Path) (h : segment ≠ "..") :
    (p.snoc segment).resolved = p.resolved.snoc segment := by
  rw [resolved, isAbsolute_snoc, snoc, List.foldl_append, List.foldl_cons, List.foldl_nil, push,
    if_neg h]
  rfl

/-- **The last segment stands at the end of the text** of a path from the root.  A relative path of
one segment would be written without the slash. -/
theorem text_snoc (h : p.isAbsolute) (segment : String) :
    (p.snoc segment).text = (p.snoc "").text ++ segment := by
  have hjoin : Text.join "/" (p.segments ++ [segment])
      = Text.join "/" (p.segments ++ [""]) ++ segment := by
    by_cases hsegments : p.segments = []
    · simp [hsegments, Text.join]
    · rw [Text.join_append_singleton hsegments, Text.join_append_singleton hsegments,
        String.append_empty]
  refine String.toList_inj.mp ?_
  have hshort : (p.snoc "").isAbsolute := h
  have hlong : (p.snoc segment).isAbsolute := h
  rw [String.toList_append, toList_text hlong, toList_text hshort, snoc, hjoin,
    String.toList_append, ← List.append_assoc]
  rfl

/-- The anchor of a text is found before anything that is no slash. -/
theorem ofChars_append {s after : List Char} (hafter : '/' ∉ after) :
    Anchor.ofChars (s ++ after) = Anchor.ofChars s := by
  have hslashes : (s ++ after).takeWhile (· == '/') = s.takeWhile (· == '/') := by
    induction s with
    | nil =>
      cases after with
      | nil => rfl
      | cons d rest =>
        refine List.takeWhile_cons_of_neg fun hslash => hafter ?_
        exact beq_iff_eq.mp hslash ▸ List.mem_cons_self
    | cons c rest ih => rw [List.cons_append, List.takeWhile_cons, List.takeWhile_cons, ih]
  rw [Anchor.ofChars, Anchor.ofChars, hslashes]

/-- A text whose last piece is neither empty nor a point ends with a segment. -/
theorem ofText_of_splitWhere {init : List (List Char)}
    (hpieces : Text.splitWhere (· == '/') s.toList = init ++ [segment.toList])
    (hempty : segment ≠ "") (hpoint : segment ≠ ".") :
    ofText s = snoc ⟨Anchor.ofChars s.toList, (init.filter fun piece =>
      !piece.isEmpty && piece != ['.']).map String.ofList⟩ segment := by
  have hne : segment.toList ≠ [] := fun e => hempty (String.toList_inj.mp e)
  have hne' : segment.toList ≠ ['.'] := fun e => hpoint (String.toList_inj.mp e)
  have hkept : !segment.toList.isEmpty && segment.toList != ['.'] := by
    rw [Bool.and_eq_true, Bool.not_eq_true', List.isEmpty_eq_false_iff, bne_iff_ne]
    exact ⟨hne, hne'⟩
  rw [ofText, segmentsOf, hpieces, List.filter_append, List.filter_singleton, hkept,
    List.map_append]
  simp [snoc]

/-- **What is appended to a text that ends with a segment** makes the segment longer.  `hempty` and
`hpoint` exclude last segments that the path drops, where the appended text would become a segment
of its own. -/
theorem exists_ofText_append {after : String} (hafter : '/' ∉ after.toList)
    (hlast : (Text.splitWhere (· == '/') s.toList).getLast? = some segment.toList)
    (hempty : segment ≠ "") (hpoint : segment ≠ ".") :
    ∃ p : Path, ofText s = p.snoc segment ∧ ofText (s ++ after) = p.snoc (segment ++ after) := by
  have hmarks : ∀ c ∈ after.toList, (c == '/') = false := by
    intro c hc
    exact beq_eq_false_iff_ne.mpr fun e => hafter (e ▸ hc)
  obtain ⟨init, last, hpieces, happend⟩ := Text.exists_splitWhere_append hmarks s.toList
  rw [hpieces, List.getLast?_concat] at hlast
  cases hlast
  refine ⟨_, ofText_of_splitWhere hpieces hempty hpoint, ?_⟩
  rw [← String.toList_append, ← String.toList_append] at happend
  rw [ofText_of_splitWhere happend, String.toList_append, ofChars_append hafter]
  · intro e
    exact hempty (String.append_eq_empty_iff.mp e).1
  · intro e
    have hchars : segment.toList ++ after.toList = ['.'] := by
      rw [← String.toList_append, e]
      rfl
    rcases List.append_eq_singleton_iff.mp hchars with ⟨hnil, -⟩ | ⟨hsingle, -⟩
    · exact hempty (String.toList_inj.mp hnil)
    · exact hpoint (String.toList_inj.mp hsingle)

end Path

namespace Environment

variable {environment : Environment} {p expanded : Path}

/-- **A text without a dollar sign** refers to no variable, and is left alone whatever the
environment has. -/
theorem expand_of_not_mem {s : String} (h : '$' ∉ s.toList) : environment.expand s = s := by
  have hchars (chars : List Char) (h : '$' ∉ chars) : environment.expandChars chars = chars := by
    induction chars with
    | nil => rw [expandChars]
    | cons c rest ih =>
      have hc : c ≠ '$' := fun e => h (e ▸ List.mem_cons_self)
      rw [expandChars, ih fun hrest => h (List.mem_cons_of_mem c hrest)]
      exact hc
  rw [expand, hchars s.toList h, String.ofList_toList]

/-- **A path that does not begin with a tilde** refers to no home directory.  A path from the root
never does. -/
theorem expandHome_of_head?
    (h : p.anchor = .here → ∀ first ∈ p.segments.head?, first.toList.head? ≠ some '~') :
    environment.expandHome p = .ok p := by
  unfold expandHome
  split
  · next first rest hanchor hsegments =>
    split
    · next user htilde =>
      rw [hsegments] at h
      exact absurd (by rw [htilde]; rfl) (h hanchor first rfl)
    · rfl
  · rfl

/-- **What holds of the segments of texts** holds of those that a home directory brings in.
`htexts` is about every text, since a home directory is a text of the environment. -/
theorem forall_segments_expandHome {q : String → Prop}
    (htexts : ∀ s, ∀ segment ∈ (Path.ofText s).segments, q segment)
    (h : ∀ segment ∈ p.segments, q segment) (hhome : environment.expandHome p = .ok expanded) :
    ∀ segment ∈ expanded.segments, q segment := by
  unfold expandHome at hhome
  split at hhome
  · next first rest _ hsegments =>
    split at hhome
    · split at hhome
      · exact nomatch hhome
      · split at hhome
        · exact nomatch hhome
        · next home _ =>
          dsimp only at hhome
          split at hhome
          · exact nomatch hhome
          · rw [← Except.ok.inj hhome]
            intro segment hsegment
            rcases List.mem_append.mp hsegment with hbase | hrest
            · split at hbase
              · exact absurd hbase List.not_mem_nil
              · exact htexts _ segment hbase
            · exact h segment (hsegments ▸ List.mem_cons_of_mem first hrest)
    · exact Except.ok.inj hhome ▸ h
  · exact Except.ok.inj hhome ▸ h

end Environment

end RuleCatalogue
