import RuleCatalogue.Proofs.Files
import RuleCatalogue.Proofs.Settings.PathOrder
import RuleCatalogue.Proofs.Settings.Precedence
import RuleCatalogue.Settings.Layers

/-!
# The paths of settings that load

Paths are made absolute, and the double points in them are removed, before their texts are trimmed.
Trimming takes blanks from the end alone, so it can bring a double point back there, and nowhere
else: the paths of settings that load are rooted (`Path.Rooted`).

## Main statements

* `Path.rooted_ofText_trimmed`: trimming the text of a path without double points.
* `Settings.rooted_of_load`: the paths of settings that load.

## Design notes

`Path.Rooted` is what the run needs of a path: it starts from the root, so its place is the same
wherever the program is run, and it has no double point, so the place is spelled by its segments.
Both are used by `Path.Rooted.unchanged`, which carries the frame of a run to a single path.
-/

namespace RuleCatalogue

/-! ## Slashes -/

/-- **No slash stands in a segment.** -/
def Path.Slashless (p : Path) : Prop :=
  ∀ segment ∈ p.segments, '/' ∉ segment.toList

namespace Path

variable {p base : Path}

theorem slashless_ofText (s : String) : (ofText s).Slashless := by
  intro segment hsegment hslash
  obtain ⟨piece, hpiece, rfl⟩ := List.mem_map.mp hsegment
  rw [String.toList_ofList] at hslash
  exact nomatch Text.not_of_mem_splitWhere (List.mem_filter.mp hpiece).1 hslash

theorem Slashless.parent (h : p.Slashless) : p.parent.Slashless :=
  fun segment hsegment => h segment (List.dropLast_subset _ hsegment)

theorem Slashless.within (h : p.Slashless) (hbase : base.Slashless) :
    (p.within base).Slashless := by
  intro segment hsegment
  unfold Path.within at hsegment
  split at hsegment
  · exact h segment hsegment
  · exact (List.mem_append.mp hsegment).elim (hbase segment) (h segment)

theorem Slashless.resolved (h : p.Slashless) : p.resolved.Slashless :=
  fun segment hsegment => h segment (mem_segments_resolved hsegment)

theorem Slashless.absolute (h : p.Slashless) (hbase : base.Slashless) :
    (p.absolute base).Slashless :=
  (h.within hbase).resolved

/-- A home directory brings in segments of its own text. -/
theorem Slashless.expandHome {environment : Environment} {expanded : Path} (h : p.Slashless)
    (hhome : environment.expandHome p = .ok expanded) : expanded.Slashless :=
  Environment.forall_segments_expandHome slashless_ofText h hhome

/-! ## Rooted paths -/

/-- **A path is rooted**: it starts at the root, and no double point stands in it but at its end. -/
structure Rooted (p : Path) : Prop where
  absolute : p.isAbsolute
  steps : ".." ∉ p.segments.dropLast

/-- A text that begins with a slash is that of a path from the root. -/
theorem isAbsolute_ofText {s : String} (h : s.toList.head? = some '/') : (ofText s).isAbsolute := by
  obtain ⟨rest, hrest⟩ := List.head?_eq_some_iff.mp h
  have hslashes : s.toList.takeWhile (· == '/') = '/' :: rest.takeWhile (· == '/') := by
    rw [hrest]
    rfl
  rw [isAbsolute, ofText, Anchor.ofChars, hslashes]
  split
  · next hnil => cases hnil
  · rfl
  · rfl

/-- All segments but the last come from pieces before the last. -/
theorem mem_of_mem_dropLast_segments {s segment : String} {init : List (List Char)}
    {last : List Char} (hpieces : Text.splitWhere (· == '/') s.toList = init ++ [last])
    (h : segment ∈ (ofText s).segments.dropLast) : segment.toList ∈ init := by
  have hinit (hmem : segment ∈ (init.filter fun piece => !piece.isEmpty && piece != ['.']).map
      String.ofList) : segment.toList ∈ init := by
    obtain ⟨piece, hpiece, rfl⟩ := List.mem_map.mp hmem
    rw [String.toList_ofList]
    exact (List.mem_filter.mp hpiece).1
  rw [ofText, segmentsOf, hpieces, List.filter_append, List.map_append] at h
  cases hkept : !last.isEmpty && last != ['.'] with
  | true =>
    rw [List.filter_singleton, hkept, cond_true, List.map_singleton, List.dropLast_concat] at h
    exact hinit h
  | false =>
    rw [List.filter_singleton, hkept, cond_false, List.map_nil, List.append_nil] at h
    exact hinit (List.dropLast_subset _ h)

/-- **Trimming the text of a path** gives the text of a path that is rooted, if there were no double
points.  A blank last segment may be trimmed away, and then the path is that of its parent. -/
theorem rooted_ofText_trimmed (h : p.isAbsolute) (hslash : p.Slashless)
    (hplain : ".." ∉ p.segments) : (ofText (Text.trimmed p.text)).Rooted := by
  have hfirst : ∀ c ∈ p.text.toList.head?, Text.isBlank c = false := by
    intro c hc
    rw [head?_text h] at hc
    rw [← Option.mem_some_iff.mp hc]
    decide
  -- The text begins with a slash, so that only blanks behind it are trimmed, and no slashes.
  obtain ⟨after, happend, hblank⟩ := Text.exists_trim_append hfirst
  have hmarks : ∀ c ∈ after, (c == '/') = false := by
    intro c hc
    refine beq_eq_false_iff_ne.mpr ?_
    rintro rfl
    exact absurd (hblank '/' hc) (by decide)
  have htrimmed : (Text.trimmed p.text).toList = Text.trim p.text.toList := by
    rw [Text.trimmed, String.toList_ofList]
  constructor
  · refine isAbsolute_ofText ?_
    have hslashMem : '/' ∈ Text.trim p.text.toList :=
      (Text.mem_trim_iff (by decide)).mpr (List.mem_of_head? (head?_text h))
    have hwhole : (Text.trim p.text.toList ++ after).head? = (Text.trim p.text.toList).head? :=
      List.head?_append_of_ne_nil _ (List.ne_nil_of_mem hslashMem)
    rwa [← happend, head?_text h, ← htrimmed, eq_comm] at hwhole
  · -- The pieces before the last are pieces of the whole text, which are segments.
    obtain ⟨init, last, hpieces, hwhole⟩ :=
      Text.exists_splitWhere_append hmarks (Text.trim p.text.toList)
    rw [← happend] at hwhole
    rw [← htrimmed] at hpieces
    intro hmem
    have hpiece : "..".toList ∈ Text.splitWhere (· == '/') p.text.toList := by
      rw [hwhole]
      exact List.mem_append_left _ (mem_of_mem_dropLast_segments hpieces hmem)
    rcases mem_splitWhere_text h hslash hpiece with hnil | ⟨segment, hsegment, heq⟩
    · cases hnil
    · rw [← String.toList_inj.mp heq] at hsegment
      exact hplain hsegment

end Path

/-! ## Rooted paths in file trees -/

/-- **A path leads to what it led to**: to the same regular file or to none, and if it ends in a
name, to a directory or nothing as before. -/
structure Workspace.Unchanged (p : Path) (before after : Workspace) : Prop where
  read : ∀ octets, after.read p = .ok octets ↔ before.read p = .ok octets
  held : endsInName p → after.held p = before.held p

namespace Path.Rooted

open Workspace

variable {p : Path} {made touched : Place → Prop} {before after : Workspace}

/-- A double point in a rooted path stands at its end. -/
theorem getLast? (h : p.Rooted) (hmem : ".." ∈ p.segments) : p.segments.getLast? = some ".." := by
  have hne : p.segments ≠ [] := List.ne_nil_of_mem hmem
  rw [← List.dropLast_append_getLast hne] at hmem
  rcases List.mem_append.mp hmem with hinit | hlast
  · exact absurd hinit h.steps
  · rw [List.getLast?_eq_some_getLast hne, List.mem_singleton.mp hlast]

/-- The place of a rooted path is that of one that it goes on from. -/
theorem place_isPrefix (h : p.Rooted) (directory : Place) : p.place directory <+: p.segments := by
  have hstart : (if p.isAbsolute then [] else directory) = [] := if_pos h.absolute
  by_cases hmem : ".." ∈ p.segments
  · obtain ⟨init, hinit⟩ := List.getLast?_eq_some_iff.mp (h.getLast? hmem)
    have hsteps := h.steps
    rw [hinit, List.dropLast_concat] at hsteps
    rw [place, hstart, hinit, List.foldl_append, foldl_push_of_not_mem hsteps, List.nil_append,
      List.foldl_cons, List.foldl_nil, push_of_not_mem hsteps, if_pos rfl]
    exact (List.dropLast_prefix init).trans (List.prefix_append init _)
  · have hplace : p.place directory = p.segments := by
      rw [place_of_not_mem hmem, hstart, List.nil_append]
    exact hplace ▸ List.prefix_rfl

/-- A path that a rooted path goes on from is rooted. -/
theorem of_prefix (h : p.Rooted) {above : List String} (habove : above <+: p.segments) :
    (⟨p.anchor, above⟩ : Path).Rooted where
  absolute := h.absolute
  steps hmem := by
    obtain ⟨rest, hrest⟩ := habove
    have hsteps := h.steps
    rw [← hrest, List.dropLast_append] at hsteps
    split at hsteps
    · exact hsteps hmem
    · exact hsteps (List.mem_append_left _ (List.dropLast_subset _ hmem))

/-- **All places on the way along a rooted path** are spelled by its first segments, so making
directories for it makes none elsewhere. -/
theorem prefix_of_leads (h : p.Rooted) {directory place : Place}
    (hleads : p.Leads directory place) : place <+: p.segments := by
  obtain ⟨above, habove, rfl⟩ := hleads
  exact ((h.of_prefix habove).place_isPrefix directory).trans habove

/-- **A rooted path leads to what it led to** if its own place is neither made nor touched.  For a
rooted path that place is `p.segments`, wherever the program is run. -/
theorem unchanged (h : p.Rooted) (hbecomes : Becomes made touched before after)
    (hsound : before.Sound) (hmade : ¬ made p.segments) (htouched : ¬ touched p.segments) :
    Unchanged p before after := by
  by_cases hmem : ".." ∈ p.segments
  · -- Such a path never leads to a regular file.
    have hlast := h.getLast? hmem
    refine ⟨fun octets => ?_, fun hname => ?_⟩
    · rw [read_eq_ok_iff, read_eq_ok_iff]
      exact iff_of_false
        (held_ne_file_of_stepBack (hbecomes.sound_workspace hsound) hlast)
        (held_ne_file_of_stepBack hsound hlast)
    · rw [endsInName, hlast] at hname
      exact nomatch hname
  · have hplace : p.place before.directory = p.segments := by
      rw [place_of_not_mem hmem, if_pos h.absolute, List.nil_append]
    have hheld := hbecomes.held_eq hsound hmem (hplace ▸ hmade) (hplace ▸ htouched)
    refine ⟨fun octets => ?_, fun _ => hheld⟩
    rw [read_eq_ok_iff, read_eq_ok_iff, hheld]

end Path.Rooted

namespace Settings

variable {environment : Environment} {path : Path} {isRequired : Bool}
  {contents : Except FileError Octets} {bindings : Fields String} {options config : Fields Value}

theorem textValue_of_fieldAt {name key s : String} (h : fieldAt config name key = some (.text s)) :
    textValue config name key = s := by
  have hvalue : value config name key = .text s := by
    rw [value]
    show ((fieldAt config name key).or _).getD _ = _
    rw [h]
    rfl
  rw [textValue, hvalue]

/-- A path that has been made absolute has no double points. -/
theorem exists_of_absoluteValue {base : Path} {v : Option Value} {s : String}
    (h : absoluteValue environment base v = .ok (some (.text s))) (hbase : base.isAbsolute)
    (hslash : base.Slashless) :
    ∃ p : Path, s = p.text ∧ p.isAbsolute ∧ p.Slashless ∧ ".." ∉ p.segments := by
  unfold absoluteValue at h
  split at h
  · next raw =>
    obtain ⟨path, hpath, htext⟩ := Fallible.map_eq_ok_iff.mp h
    obtain rfl := Value.text.inj (Option.some.inj htext)
    obtain ⟨expanded, hhome, hplaced⟩ := Fallible.map_eq_ok_iff.mp hpath
    have habsolute := Path.isAbsolute_within hbase expanded
    have hexpanded := (Path.slashless_ofText _).expandHome hhome
    exact ⟨_, hplaced.symm, habsolute, (hexpanded.within hslash).resolved,
      Path.not_mem_segments_resolved habsolute⟩
  · next hplain => exact absurd (Except.ok.inj h) (hplain s)

/-- **The paths of settings that load are rooted**, since `load` makes them absolute and trims them
afterwards.  `hslash` is about the path of the settings file, whose directory is the base. -/
theorem rooted_of_load
    (h : load environment path isRequired contents bindings options = .ok config)
    (hpath : path.isAbsolute) (hslash : path.Slashless) {place : String × String}
    (hplace : place ∈ pathFields) : (Path.ofText (textValue config place.1 place.2)).Rooted := by
  rw [load_eq] at h
  obtain ⟨merged, -, hfinished⟩ := Fallible.bind_eq_ok_iff.mp h
  obtain ⟨placed, hplaced, hmade⟩ := Fallible.bind_eq_ok_iff.mp hfinished
  obtain ⟨hright, rfl⟩ := normalize_eq_ok_iff.mp (Fallible.mapError_eq_ok_iff.mp hmade)
  have hvalue := (absolutePaths_placed.of_ok (Fallible.mapError_eq_ok_iff.mp hplaced)).path place
    hplace
  obtain ⟨s, hs⟩ := hright.exists_text hplace
  rw [textValue_of_fieldAt (hright.fieldAt_normalizeTable_path hplace hs)]
  rw [hs] at hvalue
  obtain ⟨p, rfl, habsolute, hslashless, hplain⟩ :=
    exists_of_absoluteValue hvalue hpath hslash.parent
  exact Path.rooted_ofText_trimmed habsolute hslashless hplain

end Settings

end RuleCatalogue
