import RuleCatalogue.Proofs.Settings.Overlay
import RuleCatalogue.Proofs.Settings.RootedPaths

/-!
# Path fields resolved

Making paths absolute rewrites the texts of the path fields (`mapPaths`) and touches nothing else.
The new texts are resolved (`IsResolved`): a root, and behind it segments that are neither empty nor
points.  Where a text refers to no variable and to no home directory, the new one is read off the
old one segment by segment (`resolution`).

## Main definitions

* `KnowsHome`: the home directory that a path starts from, if any, can be found.
* `climb`, `resolution`: a text taken segment by segment, from the base directory or from its root.
* `mapPaths`: a table with other texts in its path fields.

## Main results

* `Environment.exists_expandHome_iff`: home directories are found exactly where they are known.
* `placedText_eq_resolution`: a path without references is resolved segment by segment.
* `absolutePaths_resolution`: making paths absolute, in whole.

## Design notes

A tilde is looked for in the first segment that is left when empty segments and points in front are
dropped, and not at the start of the text: `./~/x` lies in the home directory, not in the directory
the text is seen from (`absolutePaths_point_tilde`).  This is how paths are read: a path in front of
which nothing but points stand is the path without them.  `Literal` says of a text that it starts
from no home directory in this sense, and what is said of literal texts holds of no others.
-/

namespace RuleCatalogue

/-! ## Home directories -/

namespace Environment

variable {environment : Environment} {p : Path}

/-- **The home directory that a path starts from is known**, if it starts from one: no NUL stands in
the name of the user, and the directory does not begin with a tilde in turn. -/
def KnowsHome (environment : Environment) (p : Path) : Prop :=
  p.anchor = .here → ∀ first ∈ p.segments.head?, ∀ user, first.toList = '~' :: user →
    '\x00' ∉ user ∧ ∃ home, environment.home? (String.ofList user) = some home
      ∧ (Text.dropEndWhile (· == '/') home.toList).head? ≠ some '~'

/-- Where a tilde begins the first segment, what follows it is the user's name. -/
theorem knowsHome_iff_of_tilde {first : String} {rest : List String} {user : List Char}
    (hanchor : p.anchor = .here) (hsegments : p.segments = first :: rest)
    (huser : first.toList = '~' :: user) :
    environment.KnowsHome p ↔ '\x00' ∉ user ∧
      ∃ home, environment.home? (String.ofList user) = some home
        ∧ (Text.dropEndWhile (· == '/') home.toList).head? ≠ some '~' := by
  constructor
  · intro h
    exact h hanchor first (by rw [hsegments]; rfl) user huser
  · intro h _ first' hfirst user' huser'
    rw [hsegments] at hfirst
    obtain rfl := Option.some.inj hfirst
    obtain rfl := (List.cons.inj (huser.symm.trans huser')).2
    exact h

/-- A path whose first segment begins with no tilde needs no home directory. -/
theorem knowsHome_of_not_tilde
    (h : p.anchor = .here → ∀ first ∈ p.segments.head?, first.toList.head? ≠ some '~') :
    environment.KnowsHome p := by
  intro hanchor first hfirst user huser
  exact absurd (by rw [huser]; rfl) (h hanchor first hfirst)

/-- **Home directories are found** exactly where they are known; `KnowsHome` asks nothing of a path
that does not begin with a tilde. -/
theorem exists_expandHome_iff :
    (∃ expanded, environment.expandHome p = .ok expanded) ↔ environment.KnowsHome p := by
  unfold expandHome
  split
  · next first rest hanchor hsegments =>
    split
    · next user huser =>
      rw [knowsHome_iff_of_tilde hanchor hsegments huser]
      split
      · next hnull =>
        exact iff_of_false (fun ⟨_, h⟩ => nomatch h) fun h => h.1 (List.contains_iff_mem.mp hnull)
      · next hnull =>
        have hnull : '\x00' ∉ user := fun h => hnull (List.contains_iff_mem.mpr h)
        split
        · next hhome => exact iff_of_false (fun ⟨_, h⟩ => nomatch h) (by simp [hhome])
        · next home hhome =>
          dsimp only
          split
          · next htilde =>
            refine iff_of_false (fun ⟨_, h⟩ => nomatch h) ?_
            rintro ⟨-, home', hhome', htilde'⟩
            obtain rfl := Option.some.inj (hhome.symm.trans hhome')
            exact htilde' (beq_iff_eq.mp htilde)
          · next htilde =>
            refine iff_of_true ⟨_, rfl⟩ ⟨hnull, home, hhome, fun e => htilde ?_⟩
            exact beq_iff_eq.mpr e
    · next hplain =>
      refine iff_of_true ⟨p, rfl⟩ (knowsHome_of_not_tilde fun _ first' hfirst htilde => ?_)
      rw [hsegments] at hfirst
      obtain rfl := Option.some.inj hfirst
      obtain ⟨user, huser⟩ := List.head?_eq_some_iff.mp htilde
      exact hplain user huser
  · next hplain =>
    refine iff_of_true ⟨p, rfl⟩ fun hanchor first hfirst => ?_
    obtain ⟨rest, hsegments⟩ := List.head?_eq_some_iff.mp hfirst
    exact absurd hsegments (hplain first rest hanchor)

end Environment

/-! ## Segments one after another -/

namespace Settings

open Value (Distinct)

variable {environment : Environment} {directory raw : String} {config placed : Fields Value}

/-- The pieces of a text between its slashes. -/
def pieces (s : String) : List String :=
  (Text.splitWhere (· == '/') s.toList).map String.ofList

/-- **One piece further**: an empty one and a point lead nowhere, a double point leads back, and at
the root nowhere. -/
def climb (above : List String) (piece : String) : List String :=
  if piece = "" ∨ piece = "." then above
  else if piece = ".." then above.dropLast
  else above ++ [piece]

/-- The root of a text that begins with a slash: two slashes stay, but no more than two. -/
def rootMark (s : String) : String :=
  if Text.startsWith "//" s ∧ ¬ Text.startsWith "///" s then "//" else "/"

/-- **A text resolved piece by piece**: from its own root if it begins with a slash, and from a
directory otherwise. -/
def resolution (directory raw : String) : String :=
  if Text.startsWith "/" raw then
    rootMark raw ++ Text.join "/" ((pieces raw).foldl climb [])
  else
    rootMark directory ++
      Text.join "/" ((pieces raw).foldl climb ((pieces directory).foldl climb []))

/-- Climbing drops what reading a path drops. -/
theorem foldl_climb_eq {above : List String} (h : ".." ∉ above) (s : String) :
    (pieces s).foldl climb above
      = (Path.ofText s).segments.foldl (Path.push true) above := by
  have hall (all : List (List Char)) : ∀ above : List String, ".." ∉ above →
      (all.map String.ofList).foldl climb above
        = ((all.filter fun piece => !piece.isEmpty && piece != ['.']).map String.ofList).foldl
            (Path.push true) above := by
    induction all with
    | nil => exact fun _ _ => rfl
    | cons piece rest ih =>
      intro above habove
      by_cases hskip : piece = [] ∨ piece = ['.']
      · have hclimb : climb above (String.ofList piece) = above := by
          rcases hskip with rfl | rfl <;> rfl
        rw [List.map_cons, List.foldl_cons, hclimb, ih above habove, List.filter_cons_of_neg]
        rcases hskip with rfl | rfl <;> simp
      · obtain ⟨hempty, hpoint⟩ := not_or.mp hskip
        have hclimb : climb above (String.ofList piece)
            = Path.push true above (String.ofList piece) := by
          have hempty' : String.ofList piece ≠ "" := fun e => hempty (by simpa using e)
          have hpoint' : String.ofList piece ≠ "." := by
            intro e
            rw [← String.toList_inj, String.toList_ofList] at e
            exact hpoint e
          rw [climb, if_neg (by simp [hempty', hpoint']), Path.push_of_not_mem habove]
        rw [List.map_cons, List.foldl_cons, hclimb, ih _ (Path.not_mem_push habove _),
          List.filter_cons_of_pos (by simp [hempty, hpoint]), List.map_cons, List.foldl_cons]
  exact hall _ above h

theorem isAbsolute_ofText_iff : (Path.ofText raw).isAbsolute ↔ Text.startsWith "/" raw := by
  constructor
  · intro h
    rw [Path.isAbsolute, Path.ofText, Anchor.ofChars] at h
    cases hchars : raw.toList with
    | nil =>
      rw [hchars] at h
      cases h
    | cons c rest =>
      by_cases hc : c = '/'
      · rw [Text.startsWith, hchars, hc]
        rfl
      · rw [hchars, List.takeWhile_cons_of_neg (by simpa using hc)] at h
        cases h
  · intro h
    refine Path.isAbsolute_ofText ?_
    obtain ⟨rest, hrest⟩ := List.isPrefixOf_iff_prefix.mp h
    rw [← hrest]
    rfl

/-- The root of a text is that of the path it writes. -/
theorem rootMark_eq (h : Text.startsWith "/" raw) :
    rootMark raw = (Path.ofText raw).anchor.text := by
  obtain ⟨rest, hrest⟩ := List.isPrefixOf_iff_prefix.mp h
  have hchars : raw.toList = '/' :: rest := hrest.symm
  rw [rootMark, Text.startsWith, Text.startsWith, Path.ofText, Anchor.ofChars, hchars]
  show (if List.isPrefixOf ['/', '/'] ('/' :: rest)
    ∧ ¬ List.isPrefixOf ['/', '/', '/'] ('/' :: rest) then "//" else "/") = _
  -- The next two characters tell how many slashes there are: one, two or more.
  cases rest with
  | nil => rfl
  | cons c more =>
    by_cases hc : c = '/'
    · subst hc
      cases more with
      | nil => rfl
      | cons d others =>
        by_cases hd : d = '/'
        · subst hd
          simp [List.isPrefixOf, List.takeWhile, Anchor.text]
        · have hne := Ne.symm hd
          have hmark : (d == '/') = false := beq_false_of_ne hd
          simp [List.isPrefixOf, List.takeWhile, Anchor.text, hne, hmark]
    · have hne := Ne.symm hc
      have hmark : (c == '/') = false := beq_false_of_ne hc
      simp [List.isPrefixOf, List.takeWhile, Anchor.text, hne, hmark]

/-- **A path without references is resolved piece by piece.** `hplain` asks the directory to have no
double point, so that it is resolved itself. -/
theorem placedText_eq_resolution (hbase : (Path.ofText directory).isAbsolute)
    (hplain : ".." ∉ (Path.ofText directory).segments) (raw : String) :
    placedText (Path.ofText directory) raw = resolution directory raw := by
  have habsolute := isAbsolute_placed hbase (Path.ofText raw)
  have hwithin := Path.isAbsolute_within hbase (Path.ofText raw)
  refine String.toList_inj.mp ?_
  rw [placedText, Path.toList_text habsolute, ← String.toList_append, resolution, Path.resolved,
    hwithin, Path.within]
  by_cases hraw : Text.startsWith "/" raw
  · rw [if_pos (isAbsolute_ofText_iff.mpr hraw), if_pos hraw, rootMark_eq hraw,
      foldl_climb_eq List.not_mem_nil]
  · have hdirectory : (pieces directory).foldl climb [] = (Path.ofText directory).segments := by
      rw [foldl_climb_eq List.not_mem_nil, Path.foldl_push_of_not_mem hplain, List.nil_append]
    rw [if_neg fun h => hraw (isAbsolute_ofText_iff.mp h), if_neg hraw,
      rootMark_eq (isAbsolute_ofText_iff.mp hbase), hdirectory, foldl_climb_eq hplain,
      List.foldl_append, Path.foldl_push_of_not_mem hplain, List.nil_append]

/-- **The text of a resolved path**: a root, and behind it segments none of which is empty, a point
or a double point. -/
def IsResolved (s : String) : Prop :=
  ∃ mark ∈ ["/", "//"], ∃ segments : List String, s = mark ++ Text.join "/" segments
    ∧ ∀ segment ∈ segments, segment ∉ ["", ".", ".."] ∧ '/' ∉ segment.toList

/-- **A path that is made absolute is resolved**, whatever its text refers to: references are
expanded before points are removed. -/
theorem isResolved_of_absolutePath {path : String} (hbase : (Path.ofText directory).isAbsolute)
    (h : absolutePath environment (Path.ofText directory) raw = .ok path) : IsResolved path := by
  obtain ⟨expanded, hhome, rfl⟩ := Fallible.map_eq_ok_iff.mp h
  have habsolute := Path.isAbsolute_within hbase expanded
  have htexts (s : String) : ∀ segment ∈ (Path.ofText s).segments,
      (segment ≠ "" ∧ segment ≠ ".") ∧ '/' ∉ segment.toList := fun segment hsegment =>
    ⟨Path.ne_of_mem_segments hsegment, Path.slashless_ofText s segment hsegment⟩
  have hwithin : ∀ segment ∈ (expanded.within (Path.ofText directory)).segments,
      (segment ≠ "" ∧ segment ≠ ".") ∧ '/' ∉ segment.toList := by
    have hexpanded := Environment.forall_segments_expandHome htexts (htexts _) hhome
    intro segment hsegment
    unfold Path.within at hsegment
    split at hsegment
    · exact hexpanded segment hsegment
    · exact (List.mem_append.mp hsegment).elim (htexts directory segment) (hexpanded segment)
  have hmark : (expanded.within (Path.ofText directory)).anchor.text ∈ ["/", "//"] := by
    unfold Path.isAbsolute at habsolute
    cases hanchor : (expanded.within (Path.ofText directory)).anchor with
    | here =>
      rw [hanchor] at habsolute
      exact nomatch habsolute
    | root => exact List.mem_cons_self
    | doubleRoot => exact List.mem_cons_of_mem _ List.mem_cons_self
  refine ⟨_, hmark, (expanded.within (Path.ofText directory)).resolved.segments, ?_,
    fun segment hsegment => ?_⟩
  · refine String.toList_inj.mp ?_
    rw [String.toList_append]
    exact Path.toList_text habsolute
  · have hstep : segment ≠ ".." := fun e =>
      Path.not_mem_segments_resolved habsolute (e ▸ hsegment)
    obtain ⟨⟨hempty, hpoint⟩, hslash⟩ := hwithin segment (Path.mem_segments_resolved hsegment)
    exact ⟨by simp [hempty, hpoint, hstep], hslash⟩

/-! ## Tables with other paths -/

/-- The value of a field with another text, if it is a path field and a text. -/
def mapPathField (f : String → String) (name key : String) : Value → Value
  | .text raw => if (name, key) ∈ pathFields then .text (f raw) else .text raw
  | v => v

/-- The value of a section with other texts in its path fields, if it is a table. -/
def mapSection (f : String → String) (name : String) : Value → Value
  | .table fields => .table (fields.map fun field => (field.1, mapPathField f name field.1 field.2))
  | v => v

/-- **A table with other texts in its path fields**; everything else is as it was. -/
def mapPaths (f : String → String) (config : Fields Value) : Fields Value :=
  config.map fun field => (field.1, mapSection f field.1 field.2)

section Placed

variable {f : String → String} {name : String}

/-- A value that is no text stays what it is. -/
theorem mapPathField_of_not_text {v : Value} (h : ∀ raw, v ≠ .text raw) (key : String) :
    mapPathField f name key v = v := by
  unfold mapPathField
  split
  · next raw => exact absurd rfl (h raw)
  · rfl

/-- A value outside the path fields stays what it is. -/
theorem mapPathField_of_not_mem {key : String} (h : (name, key) ∉ pathFields) (v : Value) :
    mapPathField f name key v = v := by
  unfold mapPathField
  split
  · exact if_neg h
  · rfl

/-- What is no table stays what it is. -/
theorem mapSection_of_not_table {v : Value} (h : ∀ fields, v ≠ .table fields) :
    mapSection f name v = v := by
  unfold mapSection
  split
  · next fields => exact absurd rfl (h fields)
  · rfl

/-- **The fields of settings with absolute paths** are the old ones with `f` applied to the path
texts.  `hf` names what each text becomes. -/
theorem Placed.fieldAt_eq_map
    (h : Placed environment (Path.ofText directory) pathFields config placed)
    (hf : ∀ raw ∈ pathTexts config,
      absolutePath environment (Path.ofText directory) raw = .ok (f raw)) (name key : String) :
    fieldAt placed name key = (fieldAt config name key).map (mapPathField f name key) := by
  by_cases hplace : (name, key) ∈ pathFields
  · by_cases htext : ∃ raw, fieldAt config name key = some (.text raw)
    · obtain ⟨raw, hraw⟩ := htext
      have hpath := h.path (name, key) hplace
      rw [hraw, absoluteValue, hf raw (mem_pathTexts hplace hraw)] at hpath
      rw [← Except.ok.inj hpath, hraw, Option.map_some, mapPathField, if_pos hplace]
    · have hplain : ∀ raw, fieldAt config name key ≠ some (.text raw) :=
        fun raw hraw => htext ⟨raw, hraw⟩
      rw [h.fieldAt_not_text hplace hplain]
      cases hv : fieldAt config name key with
      | none => rfl
      | some v =>
        rw [Option.map_some, mapPathField_of_not_text fun raw e => hplain raw (e ▸ hv)]
  · rw [h.rest name key hplace]
    cases fieldAt config name key with
    | none => rfl
    | some v => rw [Option.map_some, mapPathField_of_not_mem hplace]

/-- **Settings with absolute paths** are the settings with other texts in their path fields, as
tables: the order of sections and fields is the same too. -/
theorem Placed.eq_mapPaths (h : Placed environment (Path.ofText directory) pathFields config placed)
    (hconfig : Distinct (.table config))
    (hf : ∀ raw ∈ pathTexts config,
      absolutePath environment (Path.ofText directory) raw = .ok (f raw)) :
    placed = mapPaths f config := by
  have hkeys : (mapPaths f config).keys = config.keys := Fields.keys_mapValues (mapSection f) config
  have hnames : placed.keys = (mapPaths f config).keys := h.alike.names.trans hkeys.symm
  refine Fields.ext_get? (h.alike.names ▸ hconfig.nodup) hnames fun name => ?_
  rw [mapPaths, Fields.get?_mapValues (mapSection f)]
  by_cases htable : ∃ fields, config.get? name = some (.table fields)
  · obtain ⟨fields, hget⟩ := htable
    obtain ⟨fields', hget', hkeys'⟩ := h.alike.inner name fields hget
    have hnodup : (Fields.keys fields).Nodup := (hconfig.get? hget).nodup
    have hfields :
        fields' = fields.map fun field => (field.1, mapPathField f name field.1 field.2) := by
      refine Fields.ext_get? (hkeys' ▸ hnodup) ?_ fun key => ?_
      · rw [hkeys', Fields.keys_mapValues (mapPathField f name)]
      · rw [Fields.get?_mapValues (mapPathField f name), ← fieldAt_of_get? hget',
          ← fieldAt_of_get? hget]
        exact h.fieldAt_eq_map hf name key
    rw [hget', hget, hfields]
    rfl
  · have hplain : ∀ fields, config.get? name ≠ some (.table fields) :=
      fun fields hget => htable ⟨fields, hget⟩
    rw [h.alike.other name hplain]
    cases hv : config.get? name with
    | none => rfl
    | some v =>
      rw [Option.map_some, mapSection_of_not_table fun fields e => hplain fields (e ▸ hv)]

end Placed

/-- **Making paths absolute**, where all home directories are known: it succeeds, and changes
nothing but the texts of the path fields.  Each of them becomes the text of a resolved path, and one
that refers to no variable and no home directory is resolved piece by piece, seen from the
directory. -/
theorem absolutePaths_resolution (hconfig : Distinct (.table config))
    (hbase : (Path.ofText directory).isAbsolute)
    (hplain : ".." ∉ (Path.ofText directory).segments)
    (hhome : ∀ raw ∈ pathTexts config,
      environment.KnowsHome (Path.ofText (environment.expand raw))) :
    ∃ f : String → String,
      absolutePaths environment (Path.ofText directory) config = .ok (mapPaths f config)
        ∧ ∀ raw ∈ pathTexts config, IsResolved (f raw)
            ∧ (Literal raw → f raw = resolution directory raw) := by
  have hpath : ∀ raw ∈ pathTexts config,
      ∃ path, absolutePath environment (Path.ofText directory) raw = .ok path := by
    intro raw hraw
    obtain ⟨expanded, hexpanded⟩ := Environment.exists_expandHome_iff.mpr (hhome raw hraw)
    rw [absolutePath, hexpanded]
    exact ⟨_, rfl⟩
  choose! f hf using hpath
  obtain ⟨placed, hmade⟩ : ∃ placed,
      absolutePaths environment (Path.ofText directory) config = .ok placed := by
    refine exists_absolutePaths_iff.mpr fun place hplace => ?_
    unfold absoluteValue
    split
    · next raw hraw =>
      rw [hf raw (mem_pathTexts hplace hraw)]
      exact ⟨_, rfl⟩
    · exact ⟨_, rfl⟩
  have hplaced := (absolutePaths_placed.of_ok hmade).eq_mapPaths hconfig hf
  refine ⟨f, hplaced ▸ hmade, fun raw hraw => ⟨?_, fun hliteral => ?_⟩⟩
  · exact isResolved_of_absolutePath hbase (hf raw hraw)
  · have hplacedText : absolutePath environment (Path.ofText directory) raw
        = .ok (placedText (Path.ofText directory) raw) := absolutePath_of_literal hliteral
    rw [hf raw hraw] at hplacedText
    rw [Except.ok.inj hplacedText, placedText_eq_resolution hbase hplain]

/-- A path from a home directory, one that goes back past the root, and values that stay. -/
theorem absolutePaths_resolution_home :
    let environment : Environment := { bindings := [("HOME", "/h")] }
    let config : Fields Value :=
      [("sources", .table [("apt_dir", .text "~/x"), ("recursive", .text "./x")]),
        ("output", .table [("path", .text "a/./../..//../b")])]
    Distinct (.table config)
      ∧ (Path.ofText "/c").isAbsolute ∧ ".." ∉ (Path.ofText "/c").segments
      ∧ (∀ raw ∈ pathTexts config, environment.KnowsHome (Path.ofText (environment.expand raw)))
      ∧ ∃ home : String, absolutePaths environment (Path.ofText "/c") config
          = .ok [("sources", .table [("apt_dir", .text home), ("recursive", .text "./x")]),
              ("output", .table [("path", .text "/b")])]
          ∧ IsResolved home := by
  intro environment config
  have hconfig : Distinct (.table config) := by
    refine distinct_of_mem (by decide)
      (List.forall_mem_cons.mpr ⟨?_, List.forall_mem_singleton.mpr ?_⟩)
    · refine distinct_of_mem (by decide) (List.forall_mem_cons.mpr ⟨.leaf rfl, ?_⟩)
      exact List.forall_mem_singleton.mpr (.leaf rfl)
    · exact distinct_of_mem (by decide) (List.forall_mem_singleton.mpr (.leaf rfl))
  have htexts : pathTexts config = ["~/x", "a/./../..//../b"] := rfl
  have hknown : ∀ raw ∈ pathTexts config,
      environment.KnowsHome (Path.ofText (environment.expand raw)) := by
    rw [htexts, List.forall_mem_cons, List.forall_mem_singleton,
      Environment.expand_of_not_mem (by decide), Environment.expand_of_not_mem (by decide)]
    constructor
    · exact Environment.exists_expandHome_iff.mp ⟨⟨.root, ["h", "x"]⟩, by decide +kernel⟩
    · exact Environment.knowsHome_of_not_tilde (by decide +kernel)
  have hbase : (Path.ofText "/c").isAbsolute := by decide
  have hplain : ".." ∉ (Path.ofText "/c").segments := by decide
  obtain ⟨f, hmade, hf⟩ := absolutePaths_resolution hconfig hbase hplain hknown
  rw [htexts, List.forall_mem_cons, List.forall_mem_singleton] at hf
  obtain ⟨⟨hresolved, -⟩, -, hresolution⟩ := hf
  have hb : f "a/./../..//../b" = "/b" := hresolution (by decide +kernel)
  refine ⟨hconfig, hbase, hplain, hknown, f "~/x", ?_, hresolved⟩
  rw [hmade, ← hb]
  rfl

/-- A point in front of a tilde is dropped before the tilde is looked for, so that the path lies in
the home directory. -/
theorem absolutePaths_point_tilde :
    let environment : Environment := { bindings := [("HOME", "/h")] }
    let config : Fields Value := [("sources", .table [("apt_dir", .text "./~/x")])]
    ('$' ∉ "./~/x".toList ∧ '\x00' ∉ "./~/x".toList ∧ Text.startsWith "~" "./~/x" = false)
      ∧ Distinct (.table config)
      ∧ (Path.ofText "/c").isAbsolute ∧ ".." ∉ (Path.ofText "/c").segments
      ∧ (∀ raw ∈ pathTexts config, environment.KnowsHome (Path.ofText (environment.expand raw)))
      ∧ absolutePaths environment (Path.ofText "/c") config
          = .ok [("sources", .table [("apt_dir", .text "/h/x")])]
      ∧ resolution "/c" "./~/x" = "/c/~/x" := by
  intro environment config
  have hexpand : environment.expand "./~/x" = "./~/x" := Environment.expand_of_not_mem (by decide)
  have hhome : environment.expandHome (Path.ofText "./~/x") = .ok ⟨.root, ["h", "x"]⟩ := by
    decide +kernel
  have hpath : absolutePath environment (Path.ofText "/c") "./~/x" = .ok "/h/x" := by
    rw [absolutePath, hexpand, hhome]
    rfl
  have hconfig : Distinct (.table config) :=
    distinct_of_mem (by decide) (List.forall_mem_singleton.mpr
      (distinct_of_mem (by decide) (List.forall_mem_singleton.mpr (.leaf rfl))))
  have htexts : pathTexts config = ["./~/x"] := rfl
  have hknown : ∀ raw ∈ pathTexts config,
      environment.KnowsHome (Path.ofText (environment.expand raw)) := by
    rw [htexts, List.forall_mem_singleton, hexpand]
    exact Environment.exists_expandHome_iff.mp ⟨_, hhome⟩
  have hmade : absolutePaths environment (Path.ofText "/c") config
      = .ok [("sources", .table [("apt_dir", .text "/h/x")])] := by
    show pathFields.foldlM (absoluteField environment (Path.ofText "/c")) config = _
    have hfirst : absoluteField environment (Path.ofText "/c") config ("sources", "apt_dir")
        = .ok [("sources", .table [("apt_dir", .text "/h/x")])] := by
      show (absolutePath environment (Path.ofText "/c") "./~/x").map _ = _
      rw [hpath]
      rfl
    rw [pathFields, List.foldlM_cons, hfirst]
    rfl
  exact ⟨by decide, hconfig, by decide, by decide, hknown, hmade, by decide⟩

end Settings

end RuleCatalogue
