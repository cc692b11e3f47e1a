import RuleCatalogue.Proofs.Yaml.Grammar
import RuleCatalogue.Proofs.Yaml.Value

/-!
# Why a text has no value

The node of a document becomes a tree, and the tree has a value.  At each of these stages, as at
those before, the reader stops for a cause of the text only (`reads_parse`).

A scalar whose tag is not written gets the tag that its form gives, and so it has the form that its
tag asks for.  A collection whose tag is not written gets that of its own kind, and so it is never
read as a scalar.  Only tags that are written can ask for something else, and these stand for
exclamation marks; `Tree.Fits` says this of all tags in a tree.

A tree may hold loops, which stand for trees that are kept beside it, under their anchors.  What is
said of a tree is therefore said of these trees too (`Tree.AnchorsFit`), and whatever is put under
an anchor on the way into the tree has to fit as well.

## Main definitions

* `TagFits`, `Tree.Fits`: what is known of the tags of scalars, and of all tags in a tree.
* `Tree.AnchorsFit`: the same for the trees that loops lead to.
* `Outcome.Caused`: the error that counts is one of the text.

## Main results

* `Tree.grows_of_fits`: the tree of a node.
* `Tree.reads_mergedPairs`, `Tree.reads_scalarText`: the pairs of a mapping and the text of a tree.
* `reads_scalarReader`, `reads_scalarValue`: the kinds of scalars, each with the form it needs.
* `caused_collectionValue`, `caused_valueOf`: the value of a tree.
* `reads_parse`: the reader as a whole.

## Design notes

Wherever an exclamation mark is known to be in the text, nothing needs to be known of the trees: the
errors that ask for a mark have it (`reads_scalarText`).  So the forms of scalars only matter where
the text has no mark, and then a tree that is read as a scalar is one
(`Tree.exists_scalar_of_unmarked`).
-/

namespace RuleCatalogue.Yaml

variable {α β : Type} {text : List Char}

/-! ## Trees -/

/-- **What is known of the tag of a scalar**: it is written, or it is that of texts, or the content
gives it. -/
def TagFits (text : List Char) (tag s : String) : Prop :=
  '!' ∈ text ∨ tag = tagStart ++ "str"
    ∨ tag = tagStart ++ Tree.kindName (PlainKind.ofText s.toList)

namespace Tree

/-- The tag of a scalar is written, or it is taken from how the scalar looks. -/
theorem tagFits_scalarTag {tag : Option String} (h : tag ≠ none → '!' ∈ text) (plain : Bool)
    (s : String) : TagFits text (scalarTag tag plain s) s := by
  cases tag with
  | some t => exact .inl (h (Option.some_ne_none t))
  | none =>
    cases plain with
    | true => exact .inr (.inr rfl)
    | false => exact .inr (.inl rfl)

/-- **The tag of a collection**: it is written, or it is the usual one. -/
theorem collectionTag_eq_or {tag : Option String} (h : tag ≠ none → '!' ∈ text) (usual : String) :
    '!' ∈ text ∨ collectionTag tag usual = tagStart ++ usual := by
  cases tag with
  | some t => exact .inl (h (Option.some_ne_none t))
  | none => exact .inr rfl

/-- **What is known of a tree**: the tags of all its scalars, and the kinds of all its collections.
A tag that is none of those that the text itself gives is a written one. -/
inductive Fits (text : List Char) : Tree → Prop
  | scalar {tag s : String} (h : TagFits text tag s) : Fits text (.scalar tag s)
  | sequence (anchor : Option String) {tag : String} (h : '!' ∈ text ∨ tag = tagStart ++ "seq")
      {items : List Tree} (all : ∀ t ∈ items, Fits text t) : Fits text (.sequence anchor tag items)
  | mapping (anchor : Option String) {tag : String} (h : '!' ∈ text ∨ tag = tagStart ++ "map")
      {pairs : List (Tree × Tree)} (keys : ∀ pair ∈ pairs, Fits text pair.1)
      (values : ∀ pair ∈ pairs, Fits text pair.2) : Fits text (.mapping anchor tag pairs)
  | loop (anchor : String) : Fits text (.loop anchor)

/-- Several pairs of trees fit. -/
abbrev PairsFit (text : List Char) (pairs : List (Tree × Tree)) : Prop :=
  ∀ pair ∈ pairs, pair.1.Fits text ∧ pair.2.Fits text

/-- Pairs that fit make a mapping that fits. -/
theorem PairsFit.mapping {pairs : List (Tree × Tree)} (h : PairsFit text pairs)
    (anchor : Option String) {tag : String} (htag : '!' ∈ text ∨ tag = tagStart ++ "map") :
    Fits text (.mapping anchor tag pairs) :=
  .mapping anchor htag (fun pair hpair => (h pair hpair).1) fun pair hpair => (h pair hpair).2

/-- The trees of anchors fit. -/
abbrev AnchorsFit (text : List Char) (anchors : Anchors) : Prop :=
  ∀ entry ∈ anchors, entry.2.Fits text

variable {anchors : Anchors} {t : Tree}

/-- An anchor that is used twice makes a text malformed. -/
theorem reads_enter (h : AnchorsFit text anchors) (anchor : Option String) (ht : t.Fits text) :
    Reads text (AnchorsFit text) (enter anchors anchor t) := by
  unfold enter
  split
  · exact h
  · next name =>
    exact .ite (fun _ => reads_malformed) fun _ => List.forall_mem_cons.mpr ⟨ht, h⟩

/-- Until it is complete, a collection is a loop under its anchor. -/
theorem reads_enterOpen (h : AnchorsFit text anchors) (anchor : Option String) :
    Reads text (AnchorsFit text) (enterOpen anchors anchor) :=
  reads_enter h anchor (.loop _)

/-- When a collection is complete, it takes the place of its loop. -/
theorem anchorsFit_settle (h : AnchorsFit text anchors) (anchor : Option String)
    (ht : t.Fits text) : AnchorsFit text (settle anchors anchor t) := by
  cases anchor with
  | none => exact h
  | some name =>
    refine List.forall_mem_cons.mpr ⟨ht, fun entry hentry => ?_⟩
    exact h entry (List.mem_of_mem_filter hentry)

/-- A node has a tree that fits, if those under the anchors do. -/
def Grows (text : List Char) (n : Node) : Prop :=
  ∀ anchors, AnchorsFit text anchors →
    Reads text (fun read => read.1.Fits text ∧ AnchorsFit text read.2) (ofNode anchors n)

/-- The trees of items, each of which sees the anchors of those before it. -/
theorem reads_ofItems {items : List Node} (hitems : ∀ n ∈ items, Grows text n)
    (h : AnchorsFit text anchors) :
    Reads text (fun read => (∀ t ∈ read.1, Fits text t) ∧ AnchorsFit text read.2)
      (ofItems anchors items) := by
  induction items generalizing anchors with
  | nil => exact ⟨List.forall_mem_nil _, h⟩
  | cons n rest ih =>
    obtain ⟨hn, hrest⟩ := List.forall_mem_cons.mp hitems
    unfold ofItems
    refine (hn anchors h).bind fun first hfirst => ?_
    refine (ih hrest hfirst.2).bind fun others hothers => ?_
    exact ⟨List.forall_mem_cons.mpr ⟨hfirst.1, hothers.1⟩, hothers.2⟩

/-- The trees of pairs: a value sees the anchors of its key. -/
theorem reads_ofPairs {pairs : List (Node × Node)} (hkeys : ∀ pair ∈ pairs, Grows text pair.1)
    (hvalues : ∀ pair ∈ pairs, Grows text pair.2) (h : AnchorsFit text anchors) :
    Reads text (fun read => PairsFit text read.1 ∧ AnchorsFit text read.2)
      (ofPairs anchors pairs) := by
  induction pairs generalizing anchors with
  | nil => exact ⟨List.forall_mem_nil _, h⟩
  | cons pair rest ih =>
    obtain ⟨hkey, hkeys⟩ := List.forall_mem_cons.mp hkeys
    obtain ⟨hvalue, hvalues⟩ := List.forall_mem_cons.mp hvalues
    unfold ofPairs
    refine (hkey anchors h).bind fun key hkey => ?_
    refine (hvalue key.2 hkey.2).bind fun v hv => ?_
    refine (ih hkeys hvalues hv.2).bind fun others hothers => ?_
    exact ⟨List.forall_mem_cons.mpr ⟨⟨hkey.1, hv.1⟩, hothers.1⟩, hothers.2⟩

/-- **The tree of a node** fits the text, and the trees under the anchors it adds do. -/
theorem grows_of_fits {n : Node} (hn : n.Fits text) : Grows text n := by
  induction hn with
  | link name =>
    intro anchors h
    unfold ofNode
    split
    · next t ht =>
      obtain ⟨_, _, rfl, -⟩ := List.lookup_eq_some_iff.mp ht
      exact ⟨h (name, t) (List.mem_append_right _ List.mem_cons_self), h⟩
    · exact reads_malformed
  | scalar properties plain s htag =>
    intro anchors h
    have ht := Fits.scalar (tagFits_scalarTag htag plain s)
    unfold ofNode
    exact (reads_enter h properties.anchor ht).bind fun after hafter => ⟨ht, hafter⟩
  | sequence properties htag all ih =>
    intro anchors h
    unfold ofNode
    refine (reads_enterOpen h properties.anchor).bind fun entered hentered => ?_
    refine (reads_ofItems ih hentered).bind fun (trees, after) ⟨htrees, hafter⟩ => ?_
    have ht := Fits.sequence properties.anchor (collectionTag_eq_or htag "seq") htrees
    exact ⟨ht, anchorsFit_settle hafter properties.anchor ht⟩
  | mapping properties htag keys values ihKeys ihValues =>
    intro anchors h
    unfold ofNode
    refine (reads_enterOpen h properties.anchor).bind fun entered hentered => ?_
    refine (reads_ofPairs ihKeys ihValues hentered).bind fun (trees, after) ⟨htrees, hafter⟩ => ?_
    have ht := PairsFit.mapping htrees properties.anchor (collectionTag_eq_or htag "map")
    exact ⟨ht, anchorsFit_settle hafter properties.anchor ht⟩

/-! ### Loops and keys -/

/-- What is found under an anchor fits. -/
theorem AnchorsFit.of_lookup (h : AnchorsFit text anchors) {name : String}
    (ht : anchors.lookup name = some t) : t.Fits text := by
  obtain ⟨_, _, rfl, -⟩ := List.lookup_eq_some_iff.mp ht
  exact h (name, t) (List.mem_append_right _ List.mem_cons_self)

/-- **What a loop leads to** fits, because all trees under anchors do; that is why `AnchorsFit` is
carried beside the tree. -/
theorem Fits.target (ht : t.Fits text) (h : AnchorsFit text anchors) :
    (t.target anchors).Fits text := by
  cases ht with
  | scalar htag => exact .scalar htag
  | sequence anchor htag all => exact .sequence anchor htag all
  | mapping anchor htag keys values => exact .mapping anchor htag keys values
  | loop anchor =>
    show ((anchors.lookup anchor).getD (.loop anchor)).Fits text
    cases hfound : anchors.lookup anchor with
    | none => exact .loop anchor
    | some t => exact h.of_lookup hfound

/-- A key as it counts in a mapping: the mark of a default value is a tag of scalars, so that a
collection can only have it where it is written. -/
theorem Fits.asKey (ht : t.Fits text) : (asKey anchors t).Fits text := by
  unfold Tree.asKey
  split
  · next hdefault =>
    have hwritten {tag usual : String} (htag : '!' ∈ text ∨ tag = tagStart ++ usual)
        (hvalue : tag == tagStart ++ "value") (hne : tagStart ++ usual ≠ tagStart ++ "value") :
        '!' ∈ text :=
      htag.resolve_right fun husual => hne (husual.symm.trans (beq_iff_eq.mp hvalue))
    cases ht with
    | scalar htag => exact .scalar (.inr (.inl rfl))
    | sequence anchor htag all =>
      exact .sequence anchor (.inl (hwritten htag hdefault (by decide))) all
    | mapping anchor htag keys values =>
      exact .mapping anchor (.inl (hwritten htag hdefault (by decide))) keys values
    | loop anchor => exact .loop anchor
  · exact ht

/-! ### Merged pairs -/

/-- What a mapping merges fits, even where it is a loop. -/
theorem fits_of_source? (h : AnchorsFit text anchors) (ht : t.Fits text) {busy : List String}
    {found : Tree × List String} (hfound : source? anchors busy t = some found) :
    found.1.Fits text := by
  unfold source? at hfound
  split at hfound
  · exact nomatch hfound
  · obtain rfl := Option.some.inj hfound
    exact ht.target h

/-- **The pairs of a mapping with those that it merges**, by induction on the depth; `busy` are the
anchors of the mappings that are being flattened around it. -/
theorem reads_mergedPairs (h : AnchorsFit text anchors) (steps : Nat) (busy : List String)
    {pairs : List (Tree × Tree)} (hpairs : PairsFit text pairs) :
    Reads text (PairsFit text) (mergedPairs anchors steps busy pairs) := by
  induction steps generalizing busy pairs with
  | zero =>
    rw [mergedPairs]
    exact reads_malformed
  | succ steps ih =>
    -- Where a mapping is found, it gives its own merged pairs.
    have hmapping {busy after : List String} {t : Tree} {anchor : Option String}
        {tag : String} {inner : List (Tree × Tree)} (ht : t.Fits text)
        (hfound : source? anchors busy t = some (mapping anchor tag inner, after)) :
        Reads text (PairsFit text) (mergedPairs anchors steps after inner) := by
      cases fits_of_source? h ht hfound with
      | mapping _ _ keys values =>
        exact ih _ fun pair hpair => ⟨keys pair hpair, values pair hpair⟩
    unfold mergedPairs
    refine (@Fallible.mapM_values _ _ _ _ (PairsFit text) _ _ fun pair hpair => ?_).bind
      fun merged hmerged => ?_
    · have hv := (hpairs pair (List.mem_of_mem_filter hpair)).2
      dsimp only
      split
      · next hfound =>
        cases fits_of_source? h hv hfound with
        | sequence _ _ all =>
          refine (@Fallible.mapM_values _ _ _ _ (PairsFit text) _ _ fun t ht => ?_).map
            fun parts hparts => ?_
          · split
            · exact List.forall_mem_nil _
            · next hinner => exact hmapping (all t ht) hinner
            · exact reads_malformed
          · refine List.forall_mem_flatten.mpr fun part hpart => hparts part ?_
            exact List.mem_reverse.mp hpart
      · split
        · exact List.forall_mem_nil _
        · next hfound => exact hmapping hv hfound
        · exact reads_malformed
    · refine List.forall_mem_append.mpr ⟨List.forall_mem_flatten.mpr hmerged, ?_⟩
      refine List.forall_mem_map.mpr fun pair hpair => ?_
      obtain ⟨hkey, hv⟩ := hpairs pair (List.mem_of_mem_filter hpair)
      exact ⟨hkey.asKey, hv⟩

/-! ### Texts -/

/-- **The text of a tree that is marked as a scalar.**  Where the mark is in the text, it has no
matter what the tree is: the way through default values ends, or it is endless. -/
theorem reads_scalarText (hmark : '!' ∈ text) (steps : Nat) (t : Tree) :
    Reads text (fun _ => True) (scalarText anchors steps t) := by
  induction steps generalizing t with
  | zero =>
    rw [scalarText]
    exact Cause.endless hmark
  | succ steps ih =>
    unfold scalarText
    split
    · exact trivial
    · split
      · exact ih _
      · exact reads_malformed
    · exact reads_malformed

/-- **Without a mark in the text** only scalars are read as scalars, since the tag of a collection
is then the usual one of its kind. -/
theorem exists_scalar_of_unmarked (hmark : '!' ∉ text) (h : AnchorsFit text anchors)
    (ht : t.Fits text) {kind : String} (hkind : kindOf? (t.tag anchors) = some kind)
    (hreader : (scalarReader? kind).isSome) :
    ∃ tag s, t.target anchors = .scalar tag s ∧ TagFits text tag s ∧ kindOf? tag = some kind := by
  have hfits := ht.target h
  unfold Tree.tag at hkind
  generalize t.target anchors = found at hfits hkind ⊢
  -- The usual tags of collections are none of scalars, and a loop that leads nowhere has none.
  cases hfits with
  | @scalar tag s htag => exact ⟨tag, s, rfl, htag, hkind⟩
  | sequence _ htag _ =>
    obtain rfl := htag.resolve_left hmark
    obtain rfl := Option.some.inj ((kindOf?_tag "seq").symm.trans hkind)
    exact nomatch hreader
  | mapping _ htag _ _ =>
    obtain rfl := htag.resolve_left hmark
    obtain rfl := Option.some.inj ((kindOf?_tag "map").symm.trans hkind)
    exact nomatch hreader
  | loop anchor => exact nomatch hkind

end Tree

/-! ## Scalars and their forms -/

namespace PlainKind

variable {s : List Char}

/-- The test for what a text may look like. -/
def passes (s : List Char) : PlainKind → Bool
  | .bool => isBool s
  | .int => isInt s
  | .float => isFloat s
  | .timestamp => isTimestamp s
  | _ => true

/-- What looks like something passes the test for it. -/
theorem passes_ofText (s : List Char) : passes s (ofText s) := by
  unfold ofText
  split_ifs <;> first | assumption | rfl

/-- Behind a sign stand characters of the text. -/
theorem dropSign_subset (s : List Char) : dropSign s ⊆ s := by
  unfold dropSign
  split
  · exact List.subset_cons_self _ _
  · exact List.subset_cons_self _ _
  · exact List.Subset.refl s

/-- Each spelling of each word is one when it is put in lower case. -/
theorem isSome_lookup_of_isBool (h : isBool s) :
    (truthWords.lookup (String.ofList (s.map Char.toLower))).isSome := by
  have hspellings : ∀ word ∈ truthWords, ∀ chars ∈ spellings word.1,
      (truthWords.lookup (String.ofList (chars.map Char.toLower))).isSome := by
    decide +kernel
  obtain ⟨word, hword, hs⟩ := List.any_eq_true.mp h
  exact hspellings word hword s (List.contains_iff_mem.mp hs)

/-- An integer begins with a digit behind its sign. -/
theorem exists_digit_of_isInt (h : isInt s) : ∃ c rest, dropSign s = c :: rest ∧ c.isDigit := by
  unfold isInt at h
  split at h
  · next rest heq => exact ⟨'0', _, heq, rfl⟩
  · next rest heq => exact ⟨'0', _, heq, rfl⟩
  · next rest heq => exact ⟨'0', _, heq, rfl⟩
  · next c rest _ _ _ heq => exact ⟨c, rest, heq, (Bool.and_eq_true_iff.mp h).1⟩
  · exact nomatch h

/-- A number with a point has a digit or the point in front, behind its sign. -/
theorem exists_ne_low_of_isFloat (h : isFloat s) : ∃ c ∈ s, c ≠ '_' := by
  have hdigit {c : Char} {rest : List Char} (hs : dropSign s = c :: rest) (hc : c.isDigit) :
      ∃ c ∈ s, c ≠ '_' := by
    refine ⟨c, dropSign_subset s (hs ▸ List.mem_cons_self), ?_⟩
    rintro rfl
    exact absurd hc (by decide)
  have hpoint {rest : List Char} (hs : '.' :: rest ⊆ s) : ∃ c ∈ s, c ≠ '_' :=
    ⟨'.', hs List.mem_cons_self, by decide⟩
  simp only [isFloat, Bool.or_eq_true] at h
  rcases h with (((hpointed | hfirst) | hsixty) | hword) | hnan
  · split at hpointed
    · next hs _ => exact hdigit hs (Bool.and_eq_true_iff.mp hpointed).1
    · exact nomatch hpointed
  · split at hfirst
    · exact hpoint (List.Subset.refl _)
    · exact nomatch hfirst
  · split at hsixty
    · next hs => exact hdigit hs (Bool.and_eq_true_iff.mp hsixty).1
    · exact nomatch hsixty
  · obtain ⟨word, -, hs⟩ := List.any_eq_true.mp hword
    exact hpoint (beq_iff_eq.mp hs ▸ dropSign_subset s)
  · obtain ⟨word, -, hs⟩ := List.any_eq_true.mp hnan
    rw [beq_iff_eq.mp hs] at hpoint ⊢
    exact hpoint (List.Subset.refl _)

/-! ### Points in time

The parts of a point in time are digits, marks, spaces and tabs, one behind the other.  So a line
break that is in a text is still in what is behind each part, up to the end, where nothing is. -/

/-- No line break is lost with digits. -/
theorem mem_behindDigits {c : Char} (hc : c.isDigit = false) {least most : Nat}
    {cut : List Char × List Char} (hcut : cut ∈ digitCuts least most s) (h : c ∈ s) :
    c ∈ cut.2 := by
  obtain ⟨n, hn, rfl⟩ := List.mem_map.mp hcut
  have hrun : n ≤ (s.takeWhile Char.isDigit).length := by
    have hbounds := (List.mem_filter.mp hn).2
    simp only [Bool.and_eq_true, decide_eq_true_eq] at hbounds
    exact hbounds.2
  -- What is cut off is a part of the digits in front.
  have hdigits : ∀ d ∈ s.take n, d.isDigit := by
    intro d hd
    have hfront : s.take n = (s.takeWhile Char.isDigit).take n := by
      conv_lhs => rw [← List.takeWhile_append_dropWhile (p := Char.isDigit) (l := s)]
      rw [List.take_append_of_le_length hrun]
    rw [hfront] at hd
    exact List.mem_takeWhile_imp (List.mem_of_mem_take hd)
  rw [← List.take_append_drop n s] at h
  refine (List.mem_append.mp h).resolve_left fun hmem => ?_
  exact absurd (hdigits c hmem) (by simp [hc])

/-- No line break is lost with a mark. -/
theorem mem_behind {c d : Char} (hd : c ≠ d) {rest : List Char} (hrest : behind? d s = some rest)
    (h : c ∈ s) : c ∈ rest := by
  unfold behind? at hrest
  split at hrest
  · split at hrest
    · next hmark =>
      obtain rfl := Option.some.inj hrest
      exact (List.mem_cons.mp h).resolve_left fun hc => hd (hc.trans (beq_iff_eq.mp hmark))
    · exact nomatch hrest
  · exact nomatch hrest

/-- A character stays if it is none of those that are dropped. -/
theorem mem_dropWhile {c : Char} {p : Char → Bool} (hc : p c = false) (h : c ∈ s) :
    c ∈ s.dropWhile p := by
  rw [← List.takeWhile_append_dropWhile (p := p) (l := s)] at h
  refine (List.mem_append.mp h).resolve_left fun hmem => ?_
  exact absurd (List.mem_takeWhile_imp hmem) (by simp [hc])

/-- No line break is lost between the date and the time: spaces and tabs are dropped there, and
nothing else. -/
theorem mem_behindDate {rest : List Char} (hrest : behindDate? s = some rest) (h : '\n' ∈ s) :
    '\n' ∈ rest := by
  unfold behindDate? at hrest
  split at hrest
  · next c more =>
    have hmore (hc : c ≠ '\n') : '\n' ∈ more := (List.mem_cons.mp h).resolve_left hc.symm
    split_ifs at hrest with hletter hspace
    · obtain rfl := Option.some.inj hrest
      refine hmore ?_
      rintro rfl
      exact absurd hletter (by decide)
    · obtain rfl := Option.some.inj hrest
      refine mem_dropWhile (by decide) (hmore ?_)
      rintro rfl
      exact absurd hspace (by decide)
  · exact nomatch hrest

/-- No line break is lost with the fraction of a second. -/
theorem mem_behindFraction (h : '\n' ∈ s) : '\n' ∈ (fractionOfSecond s).2 := by
  unfold fractionOfSecond
  split
  · exact mem_dropWhile (by decide) ((List.mem_cons.mp h).resolve_left (by decide))
  · exact h

/-- Behind a zone, or without one, the text is at its end. -/
theorem not_mem_of_zoneToEnd? (h : (zoneToEnd? s).isSome) : '\n' ∉ s := by
  intro hmem
  unfold zoneToEnd? at h
  split at h
  · exact nomatch hmem
  · have hahead : '\n' ∈ s.dropWhile fun d => d == ' ' || d == '\t' :=
      mem_dropWhile (by decide) hmem
    generalize s.dropWhile _ = ahead at h hahead
    split at h
    · exact absurd hahead (by decide)
    · next sign rest _ =>
      split_ifs at h with hsign
      · have hrest : '\n' ∈ rest := by
          refine (List.mem_cons.mp hahead).resolve_left ?_
          rintro rfl
          exact absurd hsign (by decide)
        obtain ⟨⟨hours, behind⟩, hcut, hzone⟩ := List.findSome?_isSome_iff.mp h
        have hbehind : '\n' ∈ behind := mem_behindDigits (by decide) hcut hrest
        dsimp only at hzone
        split at hzone
        · exact absurd hbehind List.not_mem_nil
        · next minutes =>
          split_ifs at hzone with hminutes
          · have hdigits := (List.mem_cons.mp hbehind).resolve_left (by decide)
            exact absurd (List.all_eq_true.mp hminutes.2 _ hdigits) (by decide)
          · exact nomatch hzone
        · exact nomatch hzone
      · exact nomatch h
    · exact nomatch h

/-- Behind a time of day comes the zone, up to the end. -/
theorem not_mem_of_stampTime? {date : Stamp} (h : (stampTime? date s).isSome) : '\n' ∉ s := by
  intro hmem
  obtain ⟨hour, hhour, h⟩ := List.findSome?_isSome_iff.mp h
  have hbehindHour := mem_behindDigits (by decide) hhour hmem
  obtain ⟨stamp, h⟩ := Option.isSome_iff_exists.mp h
  obtain ⟨s, hs, h⟩ := Option.bind_eq_some_iff.mp h
  obtain ⟨minute, hminute, h⟩ := Option.bind_eq_some_iff.mp h
  obtain ⟨t, ht, h⟩ := Option.bind_eq_some_iff.mp h
  obtain ⟨second, hsecond, h⟩ := Option.bind_eq_some_iff.mp h
  obtain ⟨zone, hzone, -⟩ := Option.bind_eq_some_iff.mp h
  have hbehindMinute := mem_behindDigits (by decide) (List.mem_of_mem_head? hminute)
    (mem_behind (by decide) hs hbehindHour)
  have hbehindSecond := mem_behindDigits (by decide) (List.mem_of_mem_head? hsecond)
    (mem_behind (by decide) ht hbehindMinute)
  exact not_mem_of_zoneToEnd? (hzone ▸ rfl) (mem_behindFraction hbehindSecond)

/-- A point in time holds no line break at all. -/
theorem not_mem_of_stamp? (h : (stamp? s).isSome) : '\n' ∉ s := by
  intro hmem
  obtain ⟨stamp, h⟩ := Option.isSome_iff_exists.mp h
  obtain ⟨year, hyear, h⟩ := Option.bind_eq_some_iff.mp h
  obtain ⟨t, ht, h⟩ := Option.bind_eq_some_iff.mp h
  have hbehindYear := mem_behind (by decide) ht
    (mem_behindDigits (by decide) (List.mem_of_mem_head? hyear) hmem)
  obtain ⟨month, hmonth, h⟩ := List.exists_of_findSome?_eq_some h
  obtain ⟨u, hu, h⟩ := Option.bind_eq_some_iff.mp h
  have hbehindMonth := mem_behind (by decide) hu (mem_behindDigits (by decide) hmonth hbehindYear)
  obtain ⟨⟨day, behind⟩, hday, h⟩ := List.exists_of_findSome?_eq_some h
  have hbehindDay : '\n' ∈ behind := mem_behindDigits (by decide) hday hbehindMonth
  dsimp only at h
  split at h
  · exact absurd hbehindDay List.not_mem_nil
  · obtain ⟨final, hfinal, h⟩ := Option.bind_eq_some_iff.mp h
    have htime := Option.isSome_of_eq_some h
    exact not_mem_of_stampTime? htime (mem_behindDate hfinal hbehindDay)

/-- **A point in time has no line break at its end** that could be left out. -/
theorem withoutFinalBreak_of_isTimestamp (h : isTimestamp s) : withoutFinalBreak s = s := by
  have hstamp : (stamp? s).isSome := by
    unfold isTimestamp at h
    split at h
    · next heq => exact Option.isSome_of_eq_some heq
    · exact nomatch h
  refine if_neg fun hlast => ?_
  exact not_mem_of_stamp? hstamp (List.mem_of_getLast? hlast)

end PlainKind

/-- A scalar that has a kind without a mark for it passes the test for that kind. -/
theorem TagFits.passes {tag s : String} (h : TagFits text tag s) (kind : PlainKind)
    (hkind : kindOf? tag = some (Tree.kindName kind)) (hne : kind ≠ .text) :
    '!' ∈ text ∨ PlainKind.passes s.toList kind := by
  have hnames : ∀ a b, Tree.kindName a = Tree.kindName b → a = b := by
    intro a b
    cases a <;> cases b <;> decide
  rcases h with hmark | rfl | rfl
  · exact .inl hmark
  · rw [kindOf?_tag] at hkind
    exact absurd (hnames .text kind (Option.some.inj hkind)).symm hne
  · rw [kindOf?_tag] at hkind
    refine .inr ?_
    rw [← hnames _ _ (Option.some.inj hkind)]
    exact PlainKind.passes_ofText s.toList

variable {s : String}

/-- An integer is malformed, or it has too many digits. -/
theorem reads_parseInteger (base : Nat) (s : String) :
    Reads text (fun _ => True) (Decimal.parseInteger base s) := by
  unfold Decimal.parseInteger
  dsimp only
  split
  · exact Cause.notInteger base s
  · refine .ite (fun _ => ?_) fun _ => trivial
    unfold Decimal.integer
    exact .ite (fun _ => Cause.oversizedInteger _) fun _ => trivial

/-- A truth value without a mark is one of the words, because it looks like one. -/
theorem reads_boolValue (h : '!' ∈ text ∨ PlainKind.isBool s.toList) :
    Reads text (fun _ => True) (boolValue s) := by
  unfold boolValue
  dsimp only
  split
  · exact trivial
  · next hnone =>
    refine .notTruthValue (h.resolve_right fun hbool => ?_) _
    exact Option.isSome_iff_ne_none.mp (PlainKind.isSome_lookup_of_isBool hbool) hnone

/-- What is left of an integer without its sign and without underscores. -/
theorem signedDigits_ne_nil_of_isInt (h : PlainKind.isInt s.toList) : (signedDigits s).2 ≠ [] := by
  obtain ⟨c, rest, hs, hc⟩ := PlainKind.exists_digit_of_isInt h
  have hlow : c ≠ '_' := by
    rintro rfl
    exact absurd hc (by decide)
  unfold signedDigits
  unfold PlainKind.dropSign at hs
  split at hs
  · next more hsigned =>
    rw [hsigned, hs]
    simp [Decimal.takeSign, hlow]
  · next more hsigned =>
    rw [hsigned, hs]
    simp [Decimal.takeSign, hlow]
  · next hminus hplus =>
    have hfilter : (c :: rest).filter (· != '_') = c :: rest.filter (· != '_') :=
      List.filter_cons_of_pos (bne_iff_ne.mpr hlow)
    rw [hs, hfilter]
    unfold Decimal.takeSign
    split
    · next heq => exact (hminus rest ((List.cons.inj heq).1 ▸ hs)).elim
    · next heq => exact (hplus rest ((List.cons.inj heq).1 ▸ hs)).elim
    · exact List.cons_ne_nil _ _

/-- An integer without a mark has a digit, because it looks like one. -/
theorem reads_intValue (h : '!' ∈ text ∨ PlainKind.isInt s.toList) :
    Reads text (fun _ => True) (intValue s) := by
  have hdigits (hnil : (signedDigits s).2 = []) : '!' ∈ text :=
    h.resolve_right fun hint => signedDigits_ne_nil_of_isInt hint hnil
  -- The first test looks at the whole scalar; the second one, behind the sign, says more.
  have hempty (hnil : (s.toList.filter (· != '_')).isEmpty) : '!' ∈ text := by
    refine hdigits ?_
    rw [signedDigits, List.isEmpty_iff.mp hnil]
    rfl
  have hparse (negative : Bool) (base : Nat) (cs : List Char) : Reads text (fun _ => True)
      (Decimal.parseInteger base (String.ofList cs) >>= fun n =>
        pure (intValue.ofSigned negative n)) :=
    (reads_parseInteger base _).bind fun _ _ => trivial
  unfold intValue
  generalize signedDigits s = signed at hdigits ⊢
  obtain ⟨negative, digits⟩ := signed
  dsimp only at hdigits ⊢
  refine .ite (fun hnil => Cause.emptyNumber (hempty hnil)) fun _ => ?_
  split
  · exact Cause.emptyNumber (hdigits rfl)
  · exact trivial
  · exact hparse negative 2 _
  · exact hparse negative 16 _
  · exact hparse negative 8 _
  · refine .ite (fun _ => ?_) fun _ => hparse negative 10 _
    exact (Fallible.mapM fun group _ => reads_parseInteger 10 _).bind fun _ _ => trivial

/-- A number without groups may be malformed in a text without a mark too. -/
theorem reads_plainFloat (cs : List Char) : Reads text (fun _ => True) (plainFloat cs) := by
  unfold plainFloat
  dsimp only
  split
  · exact trivial
  · exact Cause.notNumber _

/-- **Groups of sixty are too many** exactly if one of them, counted from the last one on, counts
more than there are numbers: `floatLimit` is what no number reaches. -/
theorem floatOfSixties_eq_error_iff {groups : List Float} {base : Nat} {total : Float}
    {e : ReadError} : floatOfSixties groups base total = .error e
      ↔ e = .hugeNumber ∧ ∃ n < groups.length, floatLimit ≤ base * 60 ^ n := by
  fun_induction floatOfSixties groups base total with
  | case1 base total =>
    refine iff_of_false nofun ?_
    rintro ⟨-, n, hn, -⟩
    exact absurd hn (Nat.not_lt_zero n)
  | case2 group rest base total hlarge =>
    constructor
    · rintro ⟨⟩
      exact ⟨rfl, 0, Nat.zero_lt_succ _, by rwa [pow_zero, mul_one]⟩
    · rintro ⟨rfl, -⟩
      rfl
  | case3 group rest base total hsmall ih =>
    -- The first group is not too large, so the one that is stands behind it.
    have hbehind (n : Nat) : base * 60 ^ (n + 1) = base * 60 * 60 ^ n := by
      rw [pow_succ', mul_assoc]
    rw [ih]
    refine and_congr_right fun _ => ⟨?_, ?_⟩
    · rintro ⟨n, hn, hlarge⟩
      exact ⟨n + 1, Nat.succ_lt_succ hn, by rwa [hbehind]⟩
    · rintro ⟨n, hn, hlarge⟩
      cases n with
      | zero =>
        rw [pow_zero, mul_one] at hlarge
        exact absurd hlarge hsmall
      | succ n => exact ⟨n, Nat.lt_of_succ_lt_succ hn, by rwa [← hbehind]⟩

/-- Groups of sixty are too many, or they are a number. -/
theorem reads_floatOfSixties (groups : List Float) (base : Nat) (total : Float) :
    Reads text (fun _ => True) (floatOfSixties groups base total) := by
  cases h : floatOfSixties groups base total with
  | ok x => exact trivial
  | error e => exact (floatOfSixties_eq_error_iff.mp h).1 ▸ Cause.hugeNumber

/-- A number without a mark is not empty, because it looks like one. -/
theorem reads_floatValue (h : '!' ∈ text ∨ PlainKind.isFloat s.toList) :
    Reads text (fun _ => True) (floatValue s) := by
  have hempty (hnil : (s.toList.filter (· != '_')).isEmpty) : '!' ∈ text := by
    refine h.resolve_right fun hfloat => ?_
    obtain ⟨c, hc, hlow⟩ := PlainKind.exists_ne_low_of_isFloat hfloat
    have hmem : c ∈ s.toList.filter (· != '_') := List.mem_filter.mpr ⟨hc, bne_iff_ne.mpr hlow⟩
    rw [List.isEmpty_iff.mp hnil] at hmem
    exact nomatch hmem
  unfold floatValue
  generalize signedDigits s = signed
  obtain ⟨negative, signed⟩ := signed
  dsimp only
  refine .ite (fun hnil => Cause.emptyNumber (hempty hnil)) fun _ => ?_
  refine .ite (fun _ => trivial) fun _ => ?_
  refine .ite (fun _ => trivial) fun _ => ?_
  refine .ite (fun _ => ?_) fun _ => ?_
  · refine (Fallible.mapM fun group _ => reads_plainFloat group).bind fun groups _ => ?_
    exact (reads_floatOfSixties groups.reverse 1 0.0).bind fun _ _ => trivial
  · exact (reads_plainFloat _).bind fun _ _ => trivial

/-- An offset of a day or more does not exist. -/
theorem reads_zoneOffset (sign : Char) (hours minutes : List Char) :
    Reads text (fun _ => True) (zoneOffset sign hours minutes) := by
  unfold zoneOffset
  exact .ite (fun _ => Cause.noSuchTime _) fun _ => trivial

/-- A point in time without a mark has the form of one; whether it exists is another matter. -/
theorem reads_timestampValue (h : '!' ∈ text ∨ PlainKind.isTimestamp s.toList) :
    Reads text (fun _ => True) (timestampValue s) := by
  unfold timestampValue
  split
  · next hnone =>
    refine .notTimestamp (h.resolve_right fun hstamp => ?_)
    rw [PlainKind.withoutFinalBreak_of_isTimestamp hstamp] at hnone
    simp [PlainKind.isTimestamp, hnone] at hstamp
  · next stamp _ =>
    dsimp only
    split
    · split
      · exact Cause.noSuchTime _
      · exact trivial
    · have hzone (sign : Char) (hours minutes : List Char) :
          Reads text (fun _ => True) (some <$> zoneOffset sign hours minutes) :=
        (reads_zoneOffset sign hours minutes).map fun _ h => h
      -- The zone is read before the date and the time are looked at.
      generalize Option.or _ _ = problem
      cases problem with
      | some reason =>
        split
        · exact Cause.noSuchTime reason
        · exact Cause.noSuchTime reason
        · exact (hzone _ _ _).bind fun _ _ => Cause.noSuchTime reason
      | none =>
        split
        · exact trivial
        · exact trivial
        · exact (hzone _ _ _).bind fun _ _ => trivial

/-- Octets are malformed, or they are read. -/
theorem reads_binaryValue (s : String) : Reads text (fun _ => True) (binaryValue s) := by
  unfold binaryValue
  refine .ite (fun _ => reads_malformed) fun _ => ?_
  split
  · exact reads_malformed
  · exact trivial

/-- **The kinds of scalars**, each with the form it needs.  `TagFits` says that the tag is in the
text or that the form has given it. -/
theorem reads_scalarReader {tag kind : String} (h : TagFits text tag s)
    (hkind : kindOf? tag = some kind) {read : String → Except ReadError Value}
    (hread : scalarReader? kind = some read) : Reads text (fun _ => True) (read s) := by
  unfold scalarReader? at hread
  split at hread
  · obtain rfl := Option.some.inj hread
    exact trivial
  · obtain rfl := Option.some.inj hread
    exact trivial
  · obtain rfl := Option.some.inj hread
    exact (reads_boolValue (h.passes .bool hkind nofun)).map fun _ h => h
  · obtain rfl := Option.some.inj hread
    exact (reads_intValue (h.passes .int hkind nofun)).map fun _ h => h
  · obtain rfl := Option.some.inj hread
    exact (reads_floatValue (h.passes .float hkind nofun)).map fun _ h => h
  · obtain rfl := Option.some.inj hread
    exact reads_timestampValue (h.passes .timestamp hkind nofun)
  · obtain rfl := Option.some.inj hread
    exact reads_binaryValue s
  · exact nomatch hread

/-- **The value of a tree that is marked as a scalar**, which may be a collection if the mark is in
the text. -/
theorem reads_scalarValue {anchors : Anchors} {t : Tree} (h : Tree.AnchorsFit text anchors)
    (ht : t.Fits text) {kind : String} (hkind : kindOf? (t.tag anchors) = some kind)
    {read : String → Except ReadError Value} (hread : scalarReader? kind = some read)
    (steps : Nat) : Reads text (fun _ => True) (scalarValue anchors (steps + 1) kind read t) := by
  by_cases hmark : '!' ∈ text
  · refine (Tree.reads_scalarText hmark _ t).bind fun s _ => ?_
    refine .ite (fun _ => Cause.mappingAsTimestamp hmark) fun _ => ?_
    exact reads_scalarReader (.inl hmark) hkind hread
  · have hreader : (scalarReader? kind).isSome := hread ▸ rfl
    obtain ⟨tag, s, htarget, htag, hkind⟩ :=
      Tree.exists_scalar_of_unmarked hmark h ht hkind hreader
    have htext : t.scalarText anchors (steps + 1) = .ok s := by
      rw [Tree.scalarText, htarget]
    have hscalar : t.isMapping anchors = false := by
      rw [Tree.isMapping, htarget]
    simp only [scalarValue, htext, hscalar, Bool.and_false, Bool.false_eq_true, if_false]
    exact reads_scalarReader htag hkind hread

/-! ## Values -/

namespace Outcome

/-- **The error that counts** is one of the text. -/
abbrev Caused (text : List Char) (v : Outcome α) : Prop :=
  Fallible (fun found => Cause text found.2) (fun _ => True) v

/-- Of two errors the less deep one counts, and each is one of the text. -/
theorem caused_both {a : Outcome α} {b : Outcome β} (ha : a.Caused text) (hb : b.Caused text) :
    (both a b).Caused text := by
  cases a with
  | ok x =>
    cases b with
    | ok y => exact trivial
    | error e => exact hb
  | error e =>
    cases b with
    | ok y => exact ha
    | error f => exact .ite (fun _ => ha) fun _ => hb

/-- An error is the same at every depth. -/
theorem caused_atLevel (level : Nat) {result : Except ReadError α}
    (h : Reads text (fun _ => True) result) : (atLevel level result).Caused text := by
  cases result with
  | ok a => exact trivial
  | error e => exact h

end Outcome

/-- Of several errors one counts. -/
theorem caused_allOf {values : List (Outcome α)} (h : ∀ v ∈ values, v.Caused text) :
    (allOf values).Caused text := by
  induction values with
  | nil => exact trivial
  | cons v rest ih =>
    obtain ⟨hv, hrest⟩ := List.forall_mem_cons.mp h
    exact (Outcome.caused_both hv (ih hrest)).map fun _ h => h

/-- What is around the parts of a collection fits, because the collection does. -/
theorem anchorsFit_enter {around : Surroundings} {t : Tree}
    (haround : Tree.AnchorsFit text around.anchors) (ht : t.Fits text) :
    Tree.AnchorsFit text (around.enter t).anchors := by
  unfold Surroundings.enter
  split
  · exact haround
  · exact List.forall_mem_cons.mpr ⟨ht, haround⟩

section Parts

variable {inside : Surroundings → Tree → Outcome Value} {around : Surroundings}
variable (hinside : ∀ around t, Tree.AnchorsFit text around.anchors → t.Fits text →
  (inside around t).Caused text)
variable (haround : Tree.AnchorsFit text around.anchors) (level : Nat)

include hinside haround

/-- The entries of a mapping, each with a key and a value that are read inside of it. -/
theorem caused_pairEntries {pairs : List (Tree × Tree)} (h : Tree.PairsFit text pairs) :
    (pairEntries inside around level pairs).Caused text := by
  refine Fallible.map (caused_allOf (List.forall_mem_map.mpr fun pair hpair => ?_)) fun _ h => h
  obtain ⟨hkey, hv⟩ := h pair hpair
  refine .ite (fun _ => ?_) fun _ => Cause.malformed
  exact Outcome.caused_both (hinside around _ haround hkey) (hinside around _ haround hv)

/-- The entries of a mapping with those that it merges.  Inside of it, a loop leads to the mapping
with the merged pairs, which fits as well. -/
theorem caused_mergedEntries (steps : Nat) {anchor : Option String} {tag : String}
    {pairs : List (Tree × Tree)} (htag : '!' ∈ text ∨ tag = tagStart ++ "map")
    (h : Tree.PairsFit text pairs) :
    (mergedEntries inside around level steps (.mapping anchor tag pairs) pairs).Caused text := by
  have hmerged := Tree.reads_mergedPairs haround steps anchor.toList h
  unfold mergedEntries
  split
  · next e he => exact hmerged.of_error he
  · next merged heq =>
    have hpairs := hmerged.of_ok heq
    have hmapping := hpairs.mapping anchor htag
    exact caused_pairEntries hinside (anchorsFit_enter haround hmapping) level hpairs

/-- An item of a list of pairs, which may be a loop. -/
theorem caused_singleEntry {item : Tree} (hitem : item.Fits text) :
    (singleEntry inside around level item).Caused text := by
  have htarget := hitem.target haround
  unfold singleEntry
  split
  · next key v _ hmapping =>
    rw [hmapping] at htarget
    cases htarget with
    | mapping _ _ keys values =>
      have hkey := keys (key, v) List.mem_cons_self
      exact (hinside around key haround hkey).map fun _ h => h
  · next key v _ hmapping =>
    rw [hmapping] at htarget
    cases htarget with
    | mapping _ _ keys values =>
      have hpair := List.mem_cons_self (a := (key, v)) (l := [])
      have hentered := anchorsFit_enter haround hitem
      exact Outcome.caused_both (hinside _ _ hentered (keys _ hpair))
        (hinside _ _ hentered (values _ hpair))
  · exact Cause.malformed

/-- **The value of a collection**: a mapping is a table or a set, and a sequence is a list or one of
the two kinds of lists of pairs; with any other tag they are malformed. -/
theorem caused_collectionValue (steps : Nat) (kind : String) {t : Tree} (ht : t.Fits text) :
    (collectionValue inside around level steps kind t).Caused text := by
  have hentered := anchorsFit_enter haround ht
  have hsingles {items : List Tree} (all : ∀ item ∈ items, item.Fits text) :
      (allOf (items.map (singleEntry inside (around.enter t) level))).Caused text :=
    caused_allOf (List.forall_mem_map.mpr fun item hitem =>
      caused_singleEntry hinside hentered level (all item hitem))
  unfold collectionValue
  split
  · cases ht with
    | sequence _ _ all =>
      refine Fallible.map (caused_allOf ?_) fun _ h => h
      exact List.forall_mem_map.mpr fun item hitem => hinside _ item hentered (all item hitem)
  · cases ht with
    | sequence _ _ all => exact (hsingles all).map fun _ h => h
  · cases ht with
    | sequence _ _ all => exact (hsingles all).map fun _ h => h
  · cases ht with
    | mapping _ htag keys values =>
      exact (caused_mergedEntries hinside haround level steps htag fun pair hpair =>
        ⟨keys pair hpair, values pair hpair⟩).map fun _ h => h
  · cases ht with
    | mapping _ htag keys values =>
      exact (caused_mergedEntries hinside haround level steps htag fun pair hpair =>
        ⟨keys pair hpair, values pair hpair⟩).map fun _ h => h
  · exact Cause.malformed

end Parts

/-- **The value of a tree**, by induction on the number of steps: whatever is around it and however
deep it lies.  `AnchorsFit` is a hypothesis about `around`, since the trees under anchors are given
from outside. -/
theorem caused_valueOf (steps level : Nat) {around : Surroundings} {t : Tree}
    (haround : Tree.AnchorsFit text around.anchors) (ht : t.Fits text) :
    (valueOf steps around level t).Caused text := by
  induction steps generalizing around level t with
  | zero =>
    rw [valueOf]
    exact Cause.malformed
  | succ steps ih =>
    unfold valueOf
    refine .ite (fun _ => trivial) fun _ => ?_
    split
    · exact Cause.malformed
    · next kind hkind =>
      split
      · next read hread _ =>
        exact Outcome.caused_atLevel level (reads_scalarValue haround ht hkind hread steps)
      · exact ih level haround (ht.target haround)
      · exact caused_collectionValue (fun _ _ haround ht => ih _ haround ht) haround _ steps kind ht

/-! ## Texts -/

/-- **The reader of a text** stops for a cause of the text only.  The characters are checked first,
then come the tokens, the nodes and the values, and each stage has its lemma above. -/
theorem reads_parse (s : String) : Reads s.toList (fun _ => True) (parse s) := by
  have htokens : Node.AllFit s.toList (Token.ofText s.toList) := fun t => Token.fits_of_mem_ofText
  unfold parse
  dsimp only
  refine .ite (fun _ => Cause.malformed) fun _ => ?_
  refine (Node.reads_ofTokens? htokens).bind fun root? hroot => ?_
  split
  · exact trivial
  · next n =>
    have hn := Tree.grows_of_fits (hroot n rfl)
    refine (hn [] (List.forall_mem_nil _)).bind fun (t, anchors) ⟨ht, hanchors⟩ => ?_
    dsimp only
    have hvalue := @caused_valueOf s.toList
      (((Token.ofText s.toList).length + 2) * ((Token.ofText s.toList).length + 2)) 0
      { anchors } t hanchors ht
    split
    · exact trivial
    · next e he => exact hvalue.of_error he

end RuleCatalogue.Yaml
