import RuleCatalogue.Proofs.Settings.Placement
import RuleCatalogue.Proofs.Settings.Precedence

/-!
# Making paths absolute before or after the check

Settings are checked, and their texts trimmed, after their paths have been made absolute.  The other
order gives the same settings if each path may be trimmed before or after it is made absolute
(`Right.absolutePaths_normalizeTable_iff`).  This holds of every plain path (`PlainPath`): one that
begins with no blank and names a file or directory at its end.  It does not hold of a blank path,
which is an issue in one order and the base directory in the other (`load_blank_path`).

## Main results

* `Right.absolutePaths_normalizeTable_iff`: when both orders give the same settings.
* `trimmed_placedText`: plain paths.
* `check_absolutePaths`: the issues in both orders, and all that follows from them.

## Design notes

The two orders are compared through `Placed`, which says of each field what it was and has become;
neither order is followed step by step.  What is left is a question about single texts: whether
trimming and `placedText` may be exchanged.
-/

namespace RuleCatalogue.Settings

variable {environment : Environment} {base : Path} {config placed made : Fields Value}
  {raw last : String}

/-! ## The settings that are made -/

/-- Settings with the names of the schema keep this shape. -/
theorem Alike.shaped (h : Alike config placed) (hshaped : Shaped config) : Shaped placed where
  names := h.names.trans hshaped.names
  inner name rules hsection := by
    obtain ⟨fields, hget, hkeys⟩ := hshaped.inner name rules hsection
    obtain ⟨fields', hget', hkeys'⟩ := h.inner name fields hget
    exact ⟨fields', hget', hkeys'.trans hkeys⟩

namespace Right

/-- The path fields of right settings are texts. -/
theorem exists_text (h : Right config) {place : String × String}
    (hplace : place ∈ pathFields) :
    ∃ raw, fieldAt config place.1 place.2 = some (.text raw) := by
  obtain ⟨v, hv⟩ := h.value place.1 place.2 .path (isField_path hplace)
  cases hfield : fieldAt config place.1 place.2 with
  | none =>
    rw [hfield] at hv
    cases hv
  | some w =>
    rw [hfield] at hv
    cases w with
    | text raw => exact ⟨raw, rfl⟩
    | _ => cases hv

/-- What is made of a path field is its trimmed text. -/
theorem fieldAt_normalizeTable_path (h : Right config) {place : String × String}
    (hplace : place ∈ pathFields) (hraw : fieldAt config place.1 place.2 = some (.text raw)) :
    fieldAt (normalizeTable config) place.1 place.2 = some (.text (Text.trimmed raw)) := by
  obtain ⟨v, hv⟩ := h.value place.1 place.2 .path (isField_path hplace)
  refine h.fieldAt_normalizeTable (isField_path hplace) ?_
  rw [hraw, checkField_path] at hv ⊢
  split at hv
  · cases hv
  · next hblank =>
    split at hv
    · cases hv
    · next hnull => rw [if_neg hblank, if_neg hnull]

/-- **The other order gives the same settings** if each of their paths may be trimmed before or
after it is made absolute.  `h` and `h'` say that both orders give settings at all. -/
theorem absolutePaths_normalizeTable_iff (h : Right config) (h' : Right placed)
    (hplaced : Placed environment base pathFields config placed)
    (hliteral : ∀ raw ∈ pathTexts config, Literal raw) :
    absolutePaths environment base (normalizeTable config) = .ok (normalizeTable placed)
      ↔ ∀ raw ∈ pathTexts config,
          absolutePath environment base (Text.trimmed raw)
            = .ok (Text.trimmed (placedText base raw)) := by
  -- The values of a path field in both orders.
  have hvalue {place : String × String} {raw : String} (hplace : place ∈ pathFields)
      (hraw : fieldAt config place.1 place.2 = some (.text raw)) :
      fieldAt (normalizeTable config) place.1 place.2 = some (.text (Text.trimmed raw))
        ∧ fieldAt (normalizeTable placed) place.1 place.2
            = some (.text (Text.trimmed (placedText base raw))) := by
    have hliteral := hliteral raw (mem_pathTexts hplace hraw)
    exact ⟨h.fieldAt_normalizeTable_path hplace hraw,
      h'.fieldAt_normalizeTable_path hplace (hplaced.fieldAt_text hplace hraw hliteral)⟩
  constructor
  · intro hsame raw hmem
    obtain ⟨place, hplace, hraw⟩ := mem_pathTexts_iff.mp hmem
    obtain ⟨hbefore, hafter⟩ := hvalue hplace hraw
    have hpath := (absolutePaths_placed.of_ok hsame).path place hplace
    rw [hbefore, hafter, absoluteValue] at hpath
    cases hresult : absolutePath environment base (Text.trimmed raw) with
    | error e =>
      rw [hresult] at hpath
      cases hpath
    | ok path =>
      rw [hresult] at hpath
      exact congrArg Except.ok (Value.text.inj (Option.some.inj (Except.ok.inj hpath)))
  · -- The other order gives settings of the shape of the schema, so their fields are compared.
    intro hall
    obtain ⟨made, hmade⟩ : ∃ made,
        absolutePaths environment base (normalizeTable config) = .ok made := by
      refine exists_absolutePaths_iff.mpr fun place hplace => ?_
      obtain ⟨raw, hraw⟩ := h.exists_text hplace
      rw [(hvalue hplace hraw).1, absoluteValue, hall raw (mem_pathTexts hplace hraw)]
      exact ⟨_, rfl⟩
    have hmadePlaced := absolutePaths_placed.of_ok hmade
    have hshaped : Shaped made := hmadePlaced.alike.shaped h.shaped_normalizeTable
    rw [hmade]
    refine congrArg Except.ok (hshaped.ext h'.shaped_normalizeTable fun name key rule hfield => ?_)
    by_cases hplace : (name, key) ∈ pathFields
    · obtain ⟨raw, hraw⟩ := h.exists_text hplace
      obtain ⟨hbefore, hafter⟩ := hvalue hplace hraw
      have hpath := hmadePlaced.path (name, key) hplace
      rw [hbefore, absoluteValue, hall raw (mem_pathTexts hplace hraw)] at hpath
      exact (Except.ok.inj hpath).symm.trans hafter.symm
    · obtain ⟨v, hv⟩ := h.value name key rule hfield
      have hv' : checkField rule (fieldAt placed name key) = .ok v := by
        rwa [hplaced.rest name key hplace]
      rw [hmadePlaced.rest name key hplace, h.fieldAt_normalizeTable hfield hv,
        h'.fieldAt_normalizeTable hfield hv']

end Right

/-! ## Plain paths -/

/-- Nothing but the base directory and the text brings a NUL into an absolute path. -/
theorem hasNull_placedText (hbase : base.isAbsolute) (hnull : base.hasNull = false)
    (hraw : hasNull raw = false) : hasNull (placedText base raw) = false := by
  refine Bool.eq_false_iff.mpr fun h => ?_
  have hmem : '\x00' ∈ (placedText base raw).toList := List.contains_iff_mem.mp h
  obtain ⟨segment, hsegment, hc⟩ :=
    (Path.mem_text_iff (isAbsolute_placed hbase _) (by decide)).mp hmem
  have hsource : segment ∈ base.segments ∨ segment ∈ (Path.ofText raw).segments := by
    have hwithin := Path.mem_segments_resolved hsegment
    unfold Path.within at hwithin
    split at hwithin
    · exact Or.inr hwithin
    · exact List.mem_append.mp hwithin
  rcases hsource with hsegment | hsegment
  · have hnone := List.any_eq_false.mp hnull segment hsegment
    exact hnone (List.contains_iff_mem.mpr hc)
  · have hmem : '\x00' ∈ raw.toList := Path.mem_of_mem_segments hsegment hc
    rw [hasNull, List.contains_iff_mem.mpr hmem] at hraw
    cases hraw

/-- **A path text is plain**: it begins with no blank, holds no NUL, and names a file or directory
at its end.  Blanks at the end of the text stand right behind that name. -/
structure PlainPath (raw last : String) : Prop where
  head : ∀ c ∈ raw.toList.head?, Text.isBlank c = false
  null : hasNull raw = false
  named : (Path.ofText (Text.trimmed raw)).segments.getLast? = some last
  points : last ≠ ".."
  ending : ∀ c ∈ last.toList.getLast?, Text.isBlank c = false
  blanks : Text.trimmed raw = raw
    ∨ (Text.splitWhere (· == '/') (Text.trimmed raw).toList).getLast? = some last.toList

namespace PlainPath

theorem iff_all :
    PlainPath raw last ↔ raw.toList.head?.all (!Text.isBlank ·) ∧ hasNull raw = false
      ∧ (Path.ofText (Text.trimmed raw)).segments.getLast? = some last ∧ last ≠ ".."
      ∧ last.toList.getLast?.all (!Text.isBlank ·)
      ∧ (Text.trimmed raw = raw
        ∨ (Text.splitWhere (· == '/') (Text.trimmed raw).toList).getLast? = some last.toList) := by
  simp only [Option.all_eq_true, Bool.not_eq_true']
  constructor
  · rintro ⟨head, null, named, points, ending, blanks⟩
    exact ⟨head, null, named, points, ending, blanks⟩
  · rintro ⟨head, null, named, points, ending, blanks⟩
    exact ⟨head, null, named, points, ending, blanks⟩

instance (raw last : String) : Decidable (PlainPath raw last) :=
  decidable_of_iff' _ iff_all

theorem ne_empty (h : PlainPath raw last) : last ≠ "" :=
  (Path.ne_of_mem_segments (List.mem_of_getLast? h.named)).1

theorem not_blank (h : PlainPath raw last) : Text.isBlankText raw = false := by
  refine Bool.eq_false_iff.mpr fun hblank => ?_
  have hempty : Text.trimmed raw = "" := by
    rw [Text.trimmed, Text.isBlankText_iff.mp hblank]
  have hlast := h.named
  rw [hempty] at hlast
  cases hlast

/-- What trimming takes from a plain text is taken from the name at its end. -/
theorem exists_snoc (h : PlainPath raw last) :
    ∃ (p : Path) (after : String), Path.ofText (Text.trimmed raw) = p.snoc last
      ∧ Path.ofText raw = p.snoc (last ++ after) ∧ ∀ c ∈ after.toList, Text.isBlank c := by
  rcases h.blanks with hsame | hpiece
  · obtain ⟨init, hinit⟩ := List.getLast?_eq_some_iff.mp h.named
    rw [hsame] at hinit ⊢
    refine ⟨⟨(Path.ofText raw).anchor, init⟩, "", ?_, ?_, fun c hc => absurd hc List.not_mem_nil⟩
    · rw [Path.snoc, ← hinit]
    · rw [String.append_empty, Path.snoc, ← hinit]
  · obtain ⟨after, happend, hblank⟩ := Text.exists_trim_append h.head
    have hraw : raw = Text.trimmed raw ++ String.ofList after := by
      refine String.toList_inj.mp ?_
      rw [String.toList_append, Text.trimmed, String.toList_ofList, String.toList_ofList]
      exact happend
    have hslash : '/' ∉ (String.ofList after).toList := by
      rw [String.toList_ofList]
      intro hmem
      exact absurd (hblank '/' hmem) (by decide)
    obtain ⟨hempty, hpoint⟩ := Path.ne_of_mem_segments (List.mem_of_getLast? h.named)
    obtain ⟨p, htrimmed, hlong⟩ := Path.exists_ofText_append hslash hpiece hempty hpoint
    rw [← hraw] at hlong
    refine ⟨p, String.ofList after, htrimmed, hlong, ?_⟩
    rw [String.toList_ofList]
    exact hblank

/-- **A plain path may be trimmed before or after it is made absolute.** `PlainPath` excludes the
texts whose blanks belong to a segment: those that begin with a blank, and those with a last segment
that ends in one. -/
theorem trimmed_placedText (h : PlainPath raw last) (hbase : base.isAbsolute) :
    Text.trimmed (placedText base raw) = placedText base (Text.trimmed raw) := by
  obtain ⟨p, after, htrimmed, hraw, hblank⟩ := h.exists_snoc
  have htext (name : String) (hname : name ≠ "..") : ((p.snoc name).within base).resolved.text
      = ((p.within base).resolved.snoc "").text ++ name := by
    rw [Path.within_snoc, Path.resolved_snoc _ hname, Path.text_snoc (isAbsolute_placed hbase p)]
  -- A double point does not end with a blank, so the longer name is none either.
  have hlong : last ++ after ≠ ".." := by
    intro e
    by_cases hafter : after.toList = []
    · have hempty : after = "" := String.toList_inj.mp hafter
      rw [hempty, String.append_empty] at e
      exact h.points e
    · have hend : (last ++ after).toList.getLast? = some '.' := by
        rw [e]
        rfl
      rw [String.toList_append, List.getLast?_append_of_ne_nil _ hafter] at hend
      exact absurd (hblank '.' (List.mem_of_getLast? hend)) (by decide)
  have hshort : placedText base (Text.trimmed raw)
      = ((p.within base).resolved.snoc "").text ++ last := by
    rw [placedText, htrimmed, htext last h.points]
  have hplaced : placedText base raw = placedText base (Text.trimmed raw) ++ after := by
    rw [hshort, placedText, hraw, htext _ hlong, String.append_assoc]
  -- Trimming takes the blanks behind the name again, and nothing else.
  have hends : Text.Trimmed (placedText base (Text.trimmed raw)).toList := by
    constructor
    · intro c hc
      rw [head?_placedText hbase] at hc
      have hslash : c = '/' := (Option.mem_some_iff.mp hc).symm
      rw [hslash]
      decide
    · have hne : last.toList ≠ [] := fun e => h.ne_empty (String.toList_inj.mp e)
      rw [hshort, String.toList_append, List.getLast?_append_of_ne_nil _ hne]
      exact h.ending
  have htrim : Text.trim ([] ++ ((placedText base (Text.trimmed raw)).toList ++ after.toList))
      = (placedText base (Text.trimmed raw)).toList :=
    Text.trim_padded (fun c hc => absurd hc List.not_mem_nil) hblank hends
  rw [List.nil_append, ← String.toList_append, ← hplaced] at htrim
  rw [Text.trimmed, htrim, String.ofList_toList]

/-- Trimming leaves it a plain path that refers to nothing. -/
theorem literal_trimmed (h : PlainPath raw last) (hliteral : Literal raw) :
    Literal (Text.trimmed raw) := by
  obtain ⟨p, after, htrimmed, hraw, -⟩ := h.exists_snoc
  constructor
  · intro hmem
    rw [Text.trimmed, String.toList_ofList] at hmem
    exact hliteral.dollar (Text.mem_of_mem_trim hmem)
  · have htilde := hliteral.tilde
    rw [hraw] at htilde
    rw [htrimmed]
    intro hanchor first hfirst
    rw [Path.snoc] at hfirst
    cases hsegments : p.segments with
    | nil =>
      have hne : last.toList ≠ [] := fun e => h.ne_empty (String.toList_inj.mp e)
      have hlong := htilde hanchor (last ++ after) (by rw [Path.snoc, hsegments]; rfl)
      rw [String.toList_append, List.head?_append_of_ne_nil _ hne] at hlong
      rw [hsegments] at hfirst
      exact Option.some.inj hfirst ▸ hlong
    | cons segment rest =>
      rw [hsegments] at hfirst
      exact htilde hanchor first (by rw [Path.snoc, hsegments]; exact hfirst)

/-- A plain path has neither fault of a path. -/
theorem checkField_eq (h : PlainPath raw last) :
    checkField .path (some (.text raw)) = .ok (.text (Text.trimmed raw)) := by
  rw [checkField_path, h.not_blank, h.null]
  rfl

end PlainPath

/-- Settings with plain paths have none of the issues that making paths absolute may change. -/
theorem not_isPathIssue_of_plain (hplain : ∀ raw ∈ pathTexts config, ∃ last, PlainPath raw last)
    {issues : List Issue} (h : check (.table config) = .ok issues) {issue : Issue}
    (hissue : issue ∈ issues) : ¬ IsPathIssue issue := by
  obtain ⟨path, fault⟩ := issue
  rintro ⟨place, hplace, rfl, hfault⟩
  have hcheck := (mem_check_path_iff h hplace hfault).mp hissue
  obtain ⟨raw, hraw⟩ := exists_text_of_checkField_path hfault hcheck
  obtain ⟨last, hlast⟩ := hplain raw (mem_pathTexts hplace hraw)
  rw [hraw, hlast.checkField_eq] at hcheck
  cases hcheck

/-- **With plain paths, settings are right before their paths are made absolute if they are right
afterwards**, and conversely: none of these paths is blank, and none gets or loses a NUL. -/
theorem Placed.check_eq_nil_iff_of_plain (h : Placed environment base pathFields config placed)
    (hliteral : ∀ raw ∈ pathTexts config, Literal raw) (hbase : base.isAbsolute)
    (hnull : base.hasNull = false)
    (hplain : ∀ raw ∈ pathTexts config, ∃ last, PlainPath raw last) :
    check (.table placed) = .ok [] ↔ check (.table config) = .ok [] := by
  rw [h.check_eq_nil_iff hliteral hbase]
  constructor
  · rintro ⟨⟨issues, hissues, hpaths⟩, -⟩
    have hnone : issues = [] := List.eq_nil_iff_forall_not_mem.mpr fun issue hissue =>
      not_isPathIssue_of_plain hplain hissues hissue (hpaths issue hissue)
    rw [hissues, hnone]
  · intro hnone
    constructor
    · exact ⟨[], hnone, fun issue hissue => absurd hissue List.not_mem_nil⟩
    · intro raw hraw
      obtain ⟨last, hlast⟩ := hplain raw hraw
      exact hasNull_placedText hbase hnull hlast.null

/-- **Checking settings whose paths have been made absolute.**  The check gives a report in both
orders or in none.  No path is reported as blank.  The settings are right if there were no issues
but of paths before and no absolute path holds a NUL.  If they are right in both orders, they are
the same if each path may be trimmed before or after it is made absolute.  With plain paths the
order does not matter at all. -/
theorem check_absolutePaths (hbase : base.isAbsolute)
    (hliteral : ∀ raw ∈ pathTexts config, Literal raw) :
    ∃ placed, absolutePaths environment base config = .ok placed
      ∧ (∀ e, check (.table placed) = .error e ↔ check (.table config) = .error e)
      ∧ (∀ place ∈ pathFields, ∀ issues, check (.table placed) = .ok issues →
          ⟨place.1 ++ "." ++ place.2, .blank⟩ ∉ issues)
      ∧ (check (.table placed) = .ok []
          ↔ (∃ issues, check (.table config) = .ok issues ∧ ∀ issue ∈ issues, IsPathIssue issue)
            ∧ ∀ raw ∈ pathTexts config, hasNull (placedText base raw) = false)
      ∧ (∀ before after, normalize (.table config) = .ok before →
          normalize (.table placed) = .ok after →
            (absolutePaths environment base before = .ok after
              ↔ ∀ raw ∈ pathTexts config,
                  absolutePath environment base (Text.trimmed raw)
                    = .ok (Text.trimmed (placedText base raw))))
      ∧ (base.hasNull = false → (∀ raw ∈ pathTexts config, ∃ last, PlainPath raw last) →
          (check (.table placed) = .ok [] ↔ check (.table config) = .ok [])
            ∧ ∀ before, normalize (.table config) = .ok before →
                ∃ after, normalize (.table placed) = .ok after
                  ∧ absolutePaths environment base before = .ok after) := by
  obtain ⟨placed, hmade⟩ : ∃ placed, absolutePaths environment base config = .ok placed :=
    exists_absolutePaths_of_literal hliteral
  have hplaced := absolutePaths_placed.of_ok hmade
  refine ⟨placed, hmade, fun e => hplaced.check_eq_error_iff,
    fun place hplace issues hissues => hplaced.blank_not_mem_check hliteral hbase hissues hplace,
    hplaced.check_eq_nil_iff hliteral hbase, ?_, fun hnull hplain => ?_⟩
  · intro before after hbefore hafter
    obtain ⟨hright, rfl⟩ := normalize_eq_ok_iff.mp hbefore
    obtain ⟨hright', rfl⟩ := normalize_eq_ok_iff.mp hafter
    exact hright.absolutePaths_normalizeTable_iff hright' hplaced hliteral
  · have hcheck := hplaced.check_eq_nil_iff_of_plain hliteral hbase hnull hplain
    refine ⟨hcheck, fun before hbefore => ?_⟩
    obtain ⟨hright, rfl⟩ := normalize_eq_ok_iff.mp hbefore
    have hright' : Right placed :=
      check_eq_nil_iff.mp (hcheck.mpr (check_eq_nil_iff.mpr hright))
    refine ⟨normalizeTable placed, normalize_eq_ok_iff.mpr ⟨hright', rfl⟩, ?_⟩
    refine (hright.absolutePaths_normalizeTable_iff hright' hplaced hliteral).mpr fun raw hraw => ?_
    obtain ⟨last, hlast⟩ := hplain raw hraw
    rw [absolutePath_of_literal (hlast.literal_trimmed (hliteral raw hraw)),
      hlast.trimmed_placedText hbase]

/-- The defaults with a blank behind one of the paths. -/
theorem check_absolutePaths_trailing_blank :
    ∃ placed after,
      absolutePaths {} ⟨.root, ["work"]⟩ (withField defaults "output" "path" (.text "out/a.json "))
          = .ok placed
        ∧ normalize (.table placed) = .ok after
        ∧ absolutePaths {} ⟨.root, ["work"]⟩
            (normalizeTable (withField defaults "output" "path" (.text "out/a.json ")))
          = .ok after := by
  have htexts : pathTexts (withField defaults "output" "path" (.text "out/a.json "))
      = ["src/site/apt", "out/a.json ", "logs"] := by
    decide +kernel
  have hright : Right (withField defaults "output" "path" (.text "out/a.json ")) :=
    check_eq_nil_iff.mp (by decide +kernel)
  have hliteral : ∀ raw ∈ pathTexts (withField defaults "output" "path" (.text "out/a.json ")),
      Literal raw := by
    rw [htexts]
    decide +kernel
  have hplain : ∀ raw ∈ pathTexts (withField defaults "output" "path" (.text "out/a.json ")),
      ∃ last, PlainPath raw last := by
    rw [htexts, List.forall_mem_cons, List.forall_mem_cons, List.forall_mem_singleton]
    exact ⟨⟨"apt", by decide +kernel⟩, ⟨"a.json", by decide +kernel⟩, ⟨"logs", by decide +kernel⟩⟩
  obtain ⟨placed, hplaced, -, -, -, -, hall⟩ :=
    @check_absolutePaths {} ⟨.root, ["work"]⟩ _ (by decide) hliteral
  obtain ⟨-, hsame⟩ := hall (by decide) hplain
  obtain ⟨after, hafter, habsolute⟩ := hsame _ (normalize_eq_ok_iff.mpr ⟨hright, rfl⟩)
  exact ⟨placed, after, hplaced, hafter, habsolute⟩

/-- **A blank path is not reported**: a settings file that holds the lines `[sources]` and
`apt_dir = ''` gives settings with the issue of a blank path, and yet they are loaded, with the
directory of the file for that path. -/
theorem load_blank_path :
    ∃ config loaded,
      merged ⟨.root, ["work", "c.toml"]⟩ true
          (.ok [91, 115, 111, 117, 114, 99, 101, 115, 93, 10, 97, 112, 116, 95, 100, 105, 114, 32,
            61, 32, 39, 39, 10]) [] []
        = .ok config
      ∧ check (.table config) = .ok [⟨"sources.apt_dir", .blank⟩]
      ∧ load {} ⟨.root, ["work", "c.toml"]⟩ true
          (.ok [91, 115, 111, 117, 114, 99, 101, 115, 93, 10, 97, 112, 116, 95, 100, 105, 114, 32,
            61, 32, 39, 39, 10]) [] []
        = .ok loaded
      ∧ fieldAt loaded "sources" "apt_dir" = some (.text "/work") := by
  have hfile : fileLayer ⟨.root, ["work", "c.toml"]⟩ true
      (.ok [91, 115, 111, 117, 114, 99, 101, 115, 93, 10, 97, 112, 116, 95, 100, 105, 114, 32,
        61, 32, 39, 39, 10])
      = .ok [("sources", .table [("apt_dir", .text "")])] := by
    refine @fileLayer_of_statements _ _ _
      ['[', 's', 'o', 'u', 'r', 'c', 'e', 's', ']', '\n', 'a', 'p', 't', '_', 'd', 'i', 'r', ' ',
       '=', ' ', '\'', '\'', '\n']
      _ (by decide +kernel) (by decide) ?_
    rfl
  have hmerged : merged ⟨.root, ["work", "c.toml"]⟩ true
      (.ok [91, 115, 111, 117, 114, 99, 101, 115, 93, 10, 97, 112, 116, 95, 100, 105, 114, 32,
        61, 32, 39, 39, 10]) [] []
      = .ok (withField defaults "sources" "apt_dir" (.text "")) := by
    rw [merged, layers, hfile, variableLayer_empty, optionLayer_empty]
    rfl
  have hcheck : check (.table (withField defaults "sources" "apt_dir" (.text "")))
      = .ok [⟨"sources.apt_dir", .blank⟩] := by
    decide +kernel
  have hliteral : ∀ raw ∈ pathTexts (withField defaults "sources" "apt_dir" (.text "")),
      Literal raw := by
    decide +kernel
  obtain ⟨placed, hmade⟩ : ∃ placed, absolutePaths {} ⟨.root, ["work"]⟩
      (withField defaults "sources" "apt_dir" (.text "")) = .ok placed :=
    exists_absolutePaths_of_literal hliteral
  have hplaced := absolutePaths_placed.of_ok hmade
  have hright : Right placed := by
    refine check_eq_nil_iff.mp ((hplaced.check_eq_nil_iff hliteral (by decide)).mpr ⟨?_, ?_⟩)
    · refine ⟨_, hcheck, ?_⟩
      rw [List.forall_mem_singleton]
      exact ⟨("sources", "apt_dir"), by decide, by decide, Or.inl rfl⟩
    · decide +kernel
  have hplace : ("sources", "apt_dir") ∈ pathFields := by decide
  have hraw : fieldAt (withField defaults "sources" "apt_dir" (.text "")) "sources" "apt_dir"
      = some (.text "") := rfl
  have hfield := hplaced.fieldAt_text hplace hraw (hliteral "" (mem_pathTexts hplace hraw))
  refine ⟨_, normalizeTable placed, hmerged, hcheck, ?_, ?_⟩
  · rw [load_eq, hmerged]
    change finished {} ⟨.root, ["work"]⟩ _ = _
    rw [finished, hmade]
    change (normalize (.table placed)).mapError _ = _
    rw [normalize_eq_ok_iff.mpr ⟨hright, rfl⟩]
    rfl
  · have htrimmed : Text.trimmed (placedText ⟨.root, ["work"]⟩ "") = "/work" := by decide +kernel
    rw [hright.fieldAt_normalizeTable_path hplace hfield, htrimmed]

end RuleCatalogue.Settings
