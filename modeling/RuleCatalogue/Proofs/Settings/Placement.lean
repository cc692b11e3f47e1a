import RuleCatalogue.Proofs.Encoding.Codec
import RuleCatalogue.Proofs.Path
import RuleCatalogue.Proofs.Settings.Assigned

/-!
# Checking settings with absolute paths

Paths are made absolute before settings are checked.  Where their texts refer to nothing, that
changes no issue but two of the path fields (`Placed.mem_sectionsIssues_iff`): a blank path is not
reported, for it has become that of the base directory, and a NUL is reported where it stands in the
absolute path.

## Main definitions

* `placedText` is what the text of a path becomes when it is made absolute.
* `Literal` texts refer to no variable and to no home directory.
* `IsPathIssue` singles out the two issues that a path may lose or get.

## Main results

* `Placed.mem_sectionsIssues_iff`: all other issues are the same.
* `Placed.blank_not_mem_check` and `Placed.null_mem_check_iff`: what becomes of the two.
* `Placed.check_eq_nil_iff`: when settings with absolute paths are without issues.

## Design notes

`Literal` is a hypothesis because a reference may bring anything in, and the home directory that it
asks for may be missing.
-/

namespace RuleCatalogue.Settings

variable {environment : Environment} {base : Path} {config placed : Fields Value}
  {name key raw : String} {rule : FieldRule} {fault : Fault}

/-! ## Path texts -/

/-- **The absolute path of a text that refers to nothing.** -/
def placedText (base : Path) (raw : String) : String :=
  ((Path.ofText raw).within base).resolved.text

/-- **A path text refers to nothing**, neither to a variable nor to a home directory. -/
structure Literal (raw : String) : Prop where
  dollar : '$' ∉ raw.toList
  tilde : (Path.ofText raw).anchor = .here →
    ∀ first ∈ (Path.ofText raw).segments.head?, first.toList.head? ≠ some '~'

instance (raw : String) : Decidable (Literal raw) :=
  decidable_of_iff ('$' ∉ raw.toList ∧ ((Path.ofText raw).anchor = .here →
      ∀ first ∈ (Path.ofText raw).segments.head?, first.toList.head? ≠ some '~'))
    ⟨fun h => ⟨h.1, h.2⟩, fun h => ⟨h.dollar, h.tilde⟩⟩

theorem absolutePath_of_literal (h : Literal raw) :
    absolutePath environment base raw = .ok (placedText base raw) := by
  rw [absolutePath, Environment.expand_of_not_mem h.dollar, Environment.expandHome_of_head? h.tilde]
  rfl

theorem isAbsolute_placed (hbase : base.isAbsolute) (p : Path) :
    (p.within base).resolved.isAbsolute :=
  Path.isAbsolute_within hbase p

/-- An absolute path begins with a slash. -/
theorem head?_placedText (hbase : base.isAbsolute) (raw : String) :
    (placedText base raw).toList.head? = some '/' :=
  Path.head?_text (isAbsolute_placed hbase (Path.ofText raw))

/-- An absolute path is not blank. -/
theorem isBlankText_placedText (hbase : base.isAbsolute) (raw : String) :
    Text.isBlankText (placedText base raw) = false := by
  rw [Text.isBlankText, List.all_eq_false]
  exact ⟨'/', List.mem_of_head? (head?_placedText hbase raw), by decide⟩

/-- What is checked of a path text. -/
theorem checkField_path (s : String) :
    checkField .path (some (.text s))
      = if Text.isBlankText s then .error .blank
        else if hasNull s then .error .nullInPath
        else .ok (.text (Text.trimmed s)) := by
  rw [checkField, checkValue, textFault?, hasNull_trimmed]
  · split
    · rfl
    · cases hasNull s <;> rfl
  all_goals simp

/-! ## Path fields -/

/-- The fields that hold paths are those that the schema says so of. -/
theorem isField_path {place : String × String} (h : place ∈ pathFields) :
    IsField place.1 place.2 .path := by
  have hall : ∀ place ∈ pathFields, IsField place.1 place.2 .path := by decide
  exact hall place h

/-- **The texts of the path fields.** -/
def pathTexts (config : Fields Value) : List String :=
  pathFields.filterMap fun (name, key) =>
    match fieldAt config name key with
    | some (.text raw) => some raw
    | _ => none

theorem mem_pathTexts_iff :
    raw ∈ pathTexts config
      ↔ ∃ place ∈ pathFields, fieldAt config place.1 place.2 = some (.text raw) := by
  rw [pathTexts, List.mem_filterMap]
  refine exists_congr fun place => and_congr_right fun _ => ?_
  dsimp only
  split
  · next text htext => rw [htext, Option.some_inj, Option.some_inj, Value.text.injEq]
  · next htext => exact iff_of_false (fun h => nomatch h) (htext raw)

theorem mem_pathTexts {place : String × String} (hplace : place ∈ pathFields)
    (hraw : fieldAt config place.1 place.2 = some (.text raw)) : raw ∈ pathTexts config :=
  mem_pathTexts_iff.mpr ⟨place, hplace, hraw⟩

/-- Making paths absolute succeeds where they refer to nothing. -/
theorem exists_absolutePaths_of_literal (h : ∀ raw ∈ pathTexts config, Literal raw) :
    ∃ placed, absolutePaths environment base config = .ok placed := by
  refine exists_absolutePaths_iff.mpr fun place hplace => ?_
  unfold absoluteValue
  split
  · next raw hraw =>
    rw [absolutePath_of_literal (h raw (mem_pathTexts hplace hraw))]
    exact ⟨_, rfl⟩
  · exact ⟨_, rfl⟩

namespace Placed

/-- A path text has become absolute. -/
theorem fieldAt_text (h : Placed environment base pathFields config placed)
    {place : String × String} (hplace : place ∈ pathFields)
    (hraw : fieldAt config place.1 place.2 = some (.text raw)) (hliteral : Literal raw) :
    fieldAt placed place.1 place.2 = some (.text (placedText base raw)) := by
  have hpath := h.path place hplace
  rw [hraw, absoluteValue, absolutePath_of_literal hliteral] at hpath
  exact (Except.ok.inj hpath).symm

/-- Anything else has stayed as it was. -/
theorem fieldAt_not_text (h : Placed environment base pathFields config placed)
    {place : String × String} (hplace : place ∈ pathFields)
    (hplain : ∀ raw, fieldAt config place.1 place.2 ≠ some (.text raw)) :
    fieldAt placed place.1 place.2 = fieldAt config place.1 place.2 := by
  have hpath := h.path place hplace
  unfold absoluteValue at hpath
  split at hpath
  · next raw hraw => exact absurd hraw (hplain raw)
  · exact (Except.ok.inj hpath).symm

/-! ## Issues -/

/-- **A field is as right as before**, but for the two faults that a path may lose or get:
`Fault.blank` and `Fault.nullInPath`. -/
theorem checkField_eq_error_iff (h : Placed environment base pathFields config placed)
    (hliteral : ∀ raw ∈ pathTexts config, Literal raw) (hfield : IsField name key rule)
    (hfault : (name, key) ∈ pathFields → fault ≠ .blank ∧ fault ≠ .nullInPath) :
    checkField rule (fieldAt placed name key) = .error fault
      ↔ checkField rule (fieldAt config name key) = .error fault := by
  by_cases hplace : (name, key) ∈ pathFields
  · by_cases htext : ∃ raw, fieldAt config name key = some (.text raw)
    · obtain ⟨raw, hraw⟩ := htext
      obtain ⟨hblank, hnull⟩ := hfault hplace
      have hplaced := h.fieldAt_text hplace hraw (hliteral raw (mem_pathTexts hplace hraw))
      rw [hfield.unique (isField_path hplace), hraw, hplaced, checkField_path, checkField_path]
      -- A text of a path field has no other faults.
      have hnone (s : String) : (if Text.isBlankText s then .error .blank
          else if hasNull s then .error .nullInPath
          else .ok (.text (Text.trimmed s)) : Except Fault Value) ≠ .error fault := by
        split
        · exact fun e => hblank (Except.error.inj e).symm
        · split
          · exact fun e => hnull (Except.error.inj e).symm
          · exact fun e => nomatch e
      exact iff_of_false (hnone _) (hnone _)
    · rw [h.fieldAt_not_text hplace fun raw hraw => htext ⟨raw, hraw⟩]
  · rw [h.rest name key hplace]

theorem versionIssues_eq (h : Placed environment base pathFields config placed) :
    versionIssues placed = versionIssues config := by
  have hfield : fieldAt placed "meta" "schema_version" = fieldAt config "meta" "schema_version" :=
    h.rest _ _ (by decide)
  have hstated : statedVersion? placed = statedVersion? config := by
    refine Option.ext fun version => ?_
    rw [statedVersion?_eq_some_iff, statedVersion?_eq_some_iff, hfield]
  rw [versionIssues, versionIssues, hstated]

end Placed

/-- **The issues that making paths absolute may change**: that a path is blank, and that it has a
NUL in it. -/
def IsPathIssue (issue : Issue) : Prop :=
  ∃ place ∈ pathFields, issue.path = place.1 ++ "." ++ place.2
    ∧ (issue.fault = .blank ∨ issue.fault = .nullInPath)

/-- The issues of a section are the same but for these. -/
theorem Placed.mem_checkSection_iff (h : Placed environment base pathFields config placed)
    (hliteral : ∀ raw ∈ pathTexts config, Literal raw) {rules : List (String × FieldRule)}
    (hsection : (name, rules) ∈ schema) {issue : Issue} (hissue : ¬ IsPathIssue issue) :
    issue ∈ checkSection name rules (placed.get? name)
      ↔ issue ∈ checkSection name rules (config.get? name) := by
  by_cases htable : ∃ fields, config.get? name = some (.table fields)
  · obtain ⟨fields, hget⟩ := htable
    obtain ⟨fields', hget', hkeys⟩ := h.alike.inner name fields hget
    rw [hget, hget', checkSection, checkSection, mem_sectionIssues_iff, mem_sectionIssues_iff,
      hkeys]
    refine or_congr_right ?_
    refine exists_congr fun key => exists_congr fun rule => exists_congr fun fault => ?_
    refine and_congr_right fun hrule => and_congr_left fun heq => ?_
    rw [← fieldAt_of_get? hget, ← fieldAt_of_get? hget']
    refine h.checkField_eq_error_iff hliteral ⟨rules, hsection, hrule⟩ fun hplace => ?_
    constructor
    · rintro rfl
      exact hissue ⟨_, hplace, by rw [heq], Or.inl (by rw [heq])⟩
    · rintro rfl
      exact hissue ⟨_, hplace, by rw [heq], Or.inr (by rw [heq])⟩
  · rw [h.alike.other name fun fields hget => htable ⟨fields, hget⟩]

/-- **All other issues are the same**, since the names of the sections and fields are
(`Placed.alike`). -/
theorem Placed.mem_sectionsIssues_iff (h : Placed environment base pathFields config placed)
    (hliteral : ∀ raw ∈ pathTexts config, Literal raw) {issue : Issue}
    (hissue : ¬ IsPathIssue issue) :
    issue ∈ sectionsIssues placed ↔ issue ∈ sectionsIssues config := by
  rw [Settings.mem_sectionsIssues_iff, Settings.mem_sectionsIssues_iff, h.alike.names]
  refine or_congr_right ?_
  refine exists_congr fun name => exists_congr fun rules => and_congr_right fun hsection => ?_
  exact h.mem_checkSection_iff hliteral hsection hissue

/-- The check breaks off at the same versions. -/
theorem Placed.check_eq_error_iff (h : Placed environment base pathFields config placed)
    {e : Decimal.OversizedInteger} :
    check (.table placed) = .error e ↔ check (.table config) = .error e := by
  rw [check, check, checkTable, checkTable, h.versionIssues_eq]
  cases versionIssues config with
  | error e => exact Iff.rfl
  | ok version => exact iff_of_false (by rintro ⟨⟩) (by rintro ⟨⟩)

/-- Only texts have these two faults. -/
theorem exists_text_of_checkField_path {v : Option Value}
    (hfault : fault = .blank ∨ fault = .nullInPath) (h : checkField .path v = .error fault) :
    ∃ s, v = some (.text s) := by
  cases v with
  | none =>
    rw [← Except.error.inj h] at hfault
    exact absurd hfault (by simp)
  | some v =>
    cases v with
    | text s => exact ⟨s, rfl⟩
    | _ =>
      rw [← Except.error.inj h] at hfault
      exact absurd hfault (by simp)

/-- **A field is reported for a fault of its value.** The other faults are those of what is unknown
and of sections, which the three hypotheses on `fault` exclude. -/
theorem mem_sectionsIssues_field_iff (hfield : IsField name key rule) (hmissing : fault ≠ .missing)
    (hunknown : fault ≠ .unknown) (htable : ∀ kind, fault ≠ .notTable kind) :
    ⟨name ++ "." ++ key, fault⟩ ∈ sectionsIssues config
      ↔ checkField rule (fieldAt config name key) = .error fault := by
  constructor
  · intro h
    rcases Settings.mem_sectionsIssues_iff.mp h with
      ⟨name', -, -, heq⟩ | ⟨name', rules, hsection, h⟩
    · exact absurd (Issue.mk.inj heq).2 hunknown
    · unfold checkSection at h
      split at h
      · exact absurd (Issue.mk.inj (List.mem_singleton.mp h)).2 hmissing
      · next fields hget =>
        rcases mem_sectionIssues_iff.mp h with
          ⟨key', -, -, heq⟩ | ⟨key', rule', fault', hrule, herror, heq⟩
        · exact absurd (Issue.mk.inj heq).2 hunknown
        · obtain ⟨hpath, rfl⟩ := Issue.mk.inj heq
          -- The place is read off the path of the issue.
          have hfield' : IsField name' key' rule' := ⟨rules, hsection, hrule⟩
          have hsplit := hfield.splitKey?
          rw [hpath, hfield'.splitKey?] at hsplit
          obtain ⟨rfl, rfl⟩ := Prod.mk.inj (Option.some.inj hsplit)
          rw [fieldAt_of_get? hget, hfield.unique hfield']
          exact herror
      · exact absurd (Issue.mk.inj (List.mem_singleton.mp h)).2 (htable _)
  · intro h
    obtain ⟨rules, hsection, hrule⟩ := hfield
    obtain ⟨v, hv⟩ : ∃ v, fieldAt config name key = some v := by
      refine Option.ne_none_iff_exists'.mp fun hnone => hmissing ?_
      rw [hnone] at h
      exact (Except.error.inj h).symm
    obtain ⟨fields, hget, hkey⟩ := fieldAt_eq_some_iff.mp hv
    refine Settings.mem_sectionsIssues_iff.mpr (Or.inr ⟨name, rules, hsection, ?_⟩)
    rw [hget]
    rw [fieldAt_of_get? hget] at h
    exact mem_sectionIssues_iff.mpr (Or.inr ⟨key, rule, fault, hrule, h, rfl⟩)

/-- The two faults of paths are reported where they are. -/
theorem mem_check_path_iff {issues : List Issue} (h : check (.table config) = .ok issues)
    {place : String × String} (hplace : place ∈ pathFields)
    (hfault : fault = .blank ∨ fault = .nullInPath) :
    ⟨place.1 ++ "." ++ place.2, fault⟩ ∈ issues
      ↔ checkField .path (fieldAt config place.1 place.2) = .error fault := by
  have hsection : ⟨place.1 ++ "." ++ place.2, fault⟩ ∈ issues
      ↔ ⟨place.1 ++ "." ++ place.2, fault⟩ ∈ sectionsIssues config := by
    refine ⟨fun hissue => ((mem_check_iff h).mp hissue).resolve_right ?_,
      mem_check_of_mem_sectionsIssues h⟩
    -- The version has another fault.
    rintro ⟨version, advice, -, -, -, heq⟩
    rw [(Issue.mk.inj heq).2] at hfault
    exact absurd hfault (by simp)
  rw [hsection]
  refine mem_sectionsIssues_field_iff (isField_path hplace) ?_ ?_ ?_ <;>
    rcases hfault with rfl | rfl <;> simp

/-- A path field that is a text after it has been made absolute was one before. -/
theorem Placed.exists_raw (h : Placed environment base pathFields config placed)
    (hliteral : ∀ raw ∈ pathTexts config, Literal raw) {place : String × String}
    (hplace : place ∈ pathFields)
    {s : String} (hs : fieldAt placed place.1 place.2 = some (.text s)) :
    ∃ raw, fieldAt config place.1 place.2 = some (.text raw) ∧ s = placedText base raw := by
  by_cases htext : ∃ raw, fieldAt config place.1 place.2 = some (.text raw)
  · obtain ⟨raw, hraw⟩ := htext
    rw [h.fieldAt_text hplace hraw (hliteral raw (mem_pathTexts hplace hraw))] at hs
    cases hs
    exact ⟨raw, hraw, rfl⟩
  · rw [h.fieldAt_not_text hplace fun raw hraw => htext ⟨raw, hraw⟩] at hs
    exact absurd ⟨s, hs⟩ htext

/-- **No absolute path is reported as blank**: its text begins with the slash of the base.  A path
that was blank before has become the base itself. -/
theorem Placed.blank_not_mem_check (h : Placed environment base pathFields config placed)
    (hliteral : ∀ raw ∈ pathTexts config, Literal raw) (hbase : base.isAbsolute)
    {issues : List Issue} (hissues : check (.table placed) = .ok issues)
    {place : String × String} (hplace : place ∈ pathFields) :
    ⟨place.1 ++ "." ++ place.2, .blank⟩ ∉ issues := by
  rw [mem_check_path_iff hissues hplace (Or.inl rfl)]
  intro hcheck
  obtain ⟨s, hs⟩ := exists_text_of_checkField_path (Or.inl rfl) hcheck
  obtain ⟨raw, -, rfl⟩ := h.exists_raw hliteral hplace hs
  rw [hs, checkField_path, isBlankText_placedText hbase, if_neg Bool.false_ne_true] at hcheck
  split at hcheck <;> exact nomatch hcheck

/-- **A NUL is reported where it stands in the absolute path**, be it from the text or from a
variable that the text refers to. -/
theorem Placed.null_mem_check_iff (h : Placed environment base pathFields config placed)
    (hliteral : ∀ raw ∈ pathTexts config, Literal raw) (hbase : base.isAbsolute)
    {issues : List Issue} (hissues : check (.table placed) = .ok issues)
    {place : String × String} (hplace : place ∈ pathFields) :
    ⟨place.1 ++ "." ++ place.2, .nullInPath⟩ ∈ issues
      ↔ ∃ raw, fieldAt config place.1 place.2 = some (.text raw)
          ∧ hasNull (placedText base raw) := by
  rw [mem_check_path_iff hissues hplace (Or.inr rfl)]
  constructor
  · intro hcheck
    obtain ⟨s, hs⟩ := exists_text_of_checkField_path (Or.inr rfl) hcheck
    obtain ⟨raw, hraw, rfl⟩ := h.exists_raw hliteral hplace hs
    refine ⟨raw, hraw, ?_⟩
    rw [hs, checkField_path, isBlankText_placedText hbase, if_neg Bool.false_ne_true] at hcheck
    split at hcheck
    · assumption
    · exact nomatch hcheck
  · rintro ⟨raw, hraw, hnull⟩
    rw [h.fieldAt_text hplace hraw (hliteral raw (mem_pathTexts hplace hraw)), checkField_path,
      isBlankText_placedText hbase, if_neg Bool.false_ne_true, if_pos hnull]

/-- **Settings with absolute paths are without issues** if they had none but of paths before, and
there is no NUL in an absolute path.  It puts `mem_sectionsIssues_iff`, `blank_not_mem_check` and
`null_mem_check_iff` together. -/
theorem Placed.check_eq_nil_iff (h : Placed environment base pathFields config placed)
    (hliteral : ∀ raw ∈ pathTexts config, Literal raw) (hbase : base.isAbsolute) :
    check (.table placed) = .ok []
      ↔ (∃ issues, check (.table config) = .ok issues ∧ ∀ issue ∈ issues, IsPathIssue issue)
        ∧ ∀ raw ∈ pathTexts config, hasNull (placedText base raw) = false := by
  cases hplaced : check (.table placed) with
  | error e =>
    refine iff_of_false (fun h => nomatch h) ?_
    rintro ⟨⟨issues, hissues, -⟩, -⟩
    rw [h.check_eq_error_iff.mp hplaced] at hissues
    exact nomatch hissues
  | ok after =>
    obtain ⟨version, hversion, rfl⟩ := check_eq_ok_iff.mp hplaced
    rw [h.versionIssues_eq] at hversion
    have hconfig := check_eq_ok_iff.mpr ⟨version, hversion, rfl⟩
    -- The issue of the version is none of a path.
    have hother {issue : Issue} (hissue : issue ∈ version) : ¬ IsPathIssue issue := by
      obtain ⟨_, advice, -, -, -, rfl⟩ := (mem_versionIssues_iff hversion).mp hissue
      rintro ⟨place, -, -, hfault⟩
      exact absurd hfault (by simp)
    rw [hconfig]
    constructor
    · intro hnone
      have hno : ∀ issue, issue ∉ sectionsIssues placed ++ version :=
        List.eq_nil_iff_forall_not_mem.mp (Except.ok.inj hnone)
      refine ⟨⟨_, rfl, fun issue hissue => ?_⟩, fun raw hmem => ?_⟩
      · refine Classical.byContradiction fun hpath => hno issue (List.mem_append.mpr ?_)
        rcases List.mem_append.mp hissue with hsection | hmem
        · exact Or.inl ((h.mem_sectionsIssues_iff hliteral hpath).mpr hsection)
        · exact Or.inr hmem
      · obtain ⟨place, hplace, hraw⟩ := mem_pathTexts_iff.mp hmem
        refine Bool.eq_false_iff.mpr fun hnull => ?_
        exact hno _ ((h.null_mem_check_iff hliteral hbase hplaced hplace).mpr ⟨raw, hraw, hnull⟩)
    · rintro ⟨⟨_, ⟨⟩, hpaths⟩, hnull⟩
      refine congrArg Except.ok (List.eq_nil_iff_forall_not_mem.mpr fun issue hissue => ?_)
      by_cases hpath : IsPathIssue issue
      · obtain ⟨path, fault⟩ := issue
        obtain ⟨place, hplace, rfl, rfl | rfl⟩ := hpath
        · exact h.blank_not_mem_check hliteral hbase hplaced hplace hissue
        · obtain ⟨raw, hraw, htrue⟩ :=
            (h.null_mem_check_iff hliteral hbase hplaced hplace).mp hissue
          rw [hnull raw (mem_pathTexts hplace hraw)] at htrue
          exact nomatch htrue
      · refine hpath (hpaths issue (List.mem_append.mpr ?_))
        rcases List.mem_append.mp hissue with hsection | hmem
        · exact Or.inl ((h.mem_sectionsIssues_iff hliteral hpath).mp hsection)
        · exact Or.inr hmem

end RuleCatalogue.Settings
