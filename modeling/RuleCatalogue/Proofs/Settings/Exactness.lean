import RuleCatalogue.Proofs.Decimal
import RuleCatalogue.Proofs.Settings.Placement

/-!
# What the check of settings accepts, and what it reports

The check is exact: settings are made of a value if the value has the shape of the schema and every
field holds what its rule asks for (`Conforms`), and only then.  What is made has the sections and
fields of the schema, in its order, with the texts trimmed; checked again, it is left as it is.

The report on anything else is complete: it has an issue at the place of each field that is missing,
unknown or not accepted.  It is also local: what a section contributes to it depends on that section
alone (`contributed_congr`).  There is such a report of every value but a table that states a
version which cannot be named (`no_report_of_oversized_version`).

## Main definitions

* `Accepts`: the values that a rule asks for.
* `Conforms`: a table with the sections and fields of the schema and accepted values.
* `sectionsReport`: what the sections of the schema contribute to a report.
* `contributed`: the issues that one of them contributes.

## Main results

* `normalize_exact`: the check is exact, complete, local and idempotent.

## Design notes

The issues of a section are told from those of another one by their paths.  Unknown sections are
kept apart (`sectionsReport`), for a path does not tell them from fields: a section that is called
`sources.x` is reported at the same path as an unknown field `x` of the section `sources`.
-/

namespace RuleCatalogue.Settings

variable {config other made : Fields Value} {name key : String} {rule : FieldRule} {v w : Value}

/-! ## Accepted values -/

/-- What a rule asks of a trimmed text. -/
def AcceptsText : FieldRule → String → Prop
  | .path, text => '\x00' ∉ text.toList
  | .encoding, text => '\x00' ∉ text.toList ∧ (Codec.ofName? text).isSome
  | .choice options, text => text ∈ options
  | _, _ => True

/-- **What a rule asks for**: a truth value, a whole number that is large enough, or a text that is
not blank. -/
def Accepts (rule : FieldRule) (v : Value) : Prop :=
  match rule with
  | .truth => ∃ b, v = .bool b
  | .integer least => ∃ n, v = .int n ∧ least ≤ n
  | rule => ∃ s, v = .text s ∧ Text.trimmed s ≠ "" ∧ AcceptsText rule (Text.trimmed s)

/-- A value with its text trimmed, if it is one. -/
def stripped : Value → Value
  | .text s => .text (Text.trimmed s)
  | v => v

theorem stripped_stripped (v : Value) : stripped (stripped v) = stripped v := by
  cases v with
  | text s => rw [stripped, stripped, Text.trimmed_trimmed]
  | _ => rfl

theorem hasNull_eq_false_iff {s : String} : hasNull s = false ↔ '\x00' ∉ s.toList := by
  rw [← Bool.not_eq_true, hasNull, List.contains_iff_mem]

theorem textFault?_eq_none_iff (text : String) :
    textFault? rule text = none ↔ AcceptsText rule text := by
  cases rule with
  | path =>
    rw [textFault?, AcceptsText, ← hasNull_eq_false_iff]
    cases hasNull text <;> simp
  | encoding =>
    rw [textFault?, AcceptsText, ← hasNull_eq_false_iff]
    cases hasNull text <;> cases Codec.ofName? text <;> simp
  | choice options =>
    rw [textFault?, AcceptsText, ← List.contains_iff_mem]
    cases options.contains text <;> simp
  | _ => exact iff_of_true rfl trivial

theorem isBlankText_iff_trimmed {s : String} : Text.isBlankText s ↔ Text.trimmed s = "" := by
  rw [Text.isBlankText_iff, Text.trimmed, String.ofList_eq_empty_iff]

/-- A text passes the check of a rule for texts. -/
theorem checkValue_text_eq_ok_iff {s : String} (htruth : rule ≠ .truth)
    (hinteger : ∀ least, rule ≠ .integer least) :
    checkValue rule (.text s) = .ok w
      ↔ (Text.trimmed s ≠ "" ∧ AcceptsText rule (Text.trimmed s)) ∧ w = .text (Text.trimmed s) := by
  rw [checkValue, ← textFault?_eq_none_iff]
  · split
    · next hblank =>
      exact iff_of_false (by rintro ⟨⟩) fun h => h.1.1 (isBlankText_iff_trimmed.mp hblank)
    · next hblank =>
      have hsome : Text.trimmed s ≠ "" := fun e => hblank (isBlankText_iff_trimmed.mpr e)
      split
      · next fault hfault => exact iff_of_false (by rintro ⟨⟩) fun h => by simp [hfault] at h
      · next hfault =>
        refine ⟨fun h => ⟨⟨hsome, hfault⟩, (Except.ok.inj h).symm⟩, ?_⟩
        rintro ⟨-, rfl⟩
        rfl
  · exact htruth
  · exact hinteger

/-- **A value passes the check of a rule** if the rule asks for it, and has its text trimmed.
`Accepts` says what each rule asks for, without the order of the checks. -/
theorem checkValue_eq_ok_iff :
    checkValue rule v = .ok w ↔ Accepts rule v ∧ w = stripped v := by
  cases rule with
  | truth => cases v <;> simp [checkValue, Accepts, stripped, eq_comm]
  | integer least =>
    cases v with
    | int n =>
      by_cases hn : n < least
      · simp [checkValue, Accepts, hn, Int.not_le.mpr hn]
      · simp [checkValue, Accepts, stripped, hn, Int.not_lt.mp hn, eq_comm]
    | _ => simp [checkValue, Accepts]
  | _ =>
    cases v with
    | text s =>
      rw [checkValue_text_eq_ok_iff (by simp) (by simp)]
      simp [Accepts, stripped]
    | _ => simp [checkValue, Accepts]

/-- A field that is there passes if its value does. -/
theorem exists_checkField_eq_ok_iff {v : Option Value} :
    (∃ w, checkField rule v = .ok w) ↔ ∃ found, v = some found ∧ Accepts rule found := by
  cases v with
  | none => exact iff_of_false (fun ⟨_, h⟩ => nomatch h) fun ⟨_, h, _⟩ => nomatch h
  | some found =>
    constructor
    · rintro ⟨w, h⟩
      exact ⟨found, rfl, (checkValue_eq_ok_iff.mp h).1⟩
    · rintro ⟨_, ⟨⟩, h⟩
      exact ⟨stripped found, checkValue_eq_ok_iff.mpr ⟨h, rfl⟩⟩

/-! ## Accepted settings -/

/-- **A table conforms to the schema**: it has exactly its sections, each of them is a table with
exactly its fields, all values are accepted, and the version is the present one. -/
structure Conforms (config : Fields Value) : Prop where
  sections : ∀ name, name ∈ config.keys ↔ name ∈ Fields.keys schema
  inner : ∀ name rules, (name, rules) ∈ schema → ∃ fields, config.get? name = some (.table fields)
    ∧ ∀ key, key ∈ Fields.keys fields ↔ key ∈ Fields.keys rules
  value : ∀ name key rule, IsField name key rule →
    ∃ v, fieldAt config name key = some v ∧ Accepts rule v
  version : fieldAt config "meta" "schema_version" = some (.int schemaVersion)

theorem conforms_iff_right : Conforms config ↔ Right config := by
  constructor
  · intro h
    refine ⟨fun name hname => (h.sections name).mp hname, fun name rules hsection => ?_,
      fun name key rule hfield => ?_, h.version⟩
    · obtain ⟨fields, hget, hkeys⟩ := h.inner name rules hsection
      exact ⟨fields, hget, fun key hkey => (hkeys key).mp hkey⟩
    · exact exists_checkField_eq_ok_iff.mpr (h.value name key rule hfield)
  · intro h
    have hvalue : ∀ name key rule, IsField name key rule →
        ∃ v, fieldAt config name key = some v ∧ Accepts rule v :=
      fun name key rule hfield => exists_checkField_eq_ok_iff.mp (h.value name key rule hfield)
    refine ⟨fun name => ⟨h.known name, fun hname => ?_⟩, fun name rules hsection => ?_, hvalue,
      h.version⟩
    · obtain ⟨⟨_, rules⟩, hsection, rfl⟩ := List.mem_map.mp hname
      obtain ⟨fields, hget, -⟩ := h.inner _ rules hsection
      exact Fields.mem_keys_of_get? hget
    · obtain ⟨fields, hget, hknown⟩ := h.inner name rules hsection
      refine ⟨fields, hget, fun key => ⟨hknown key, fun hkey => ?_⟩⟩
      obtain ⟨⟨_, rule⟩, hrule, rfl⟩ := List.mem_map.mp hkey
      obtain ⟨v, hv, -⟩ := hvalue name _ rule ⟨rules, hsection, hrule⟩
      rw [fieldAt_of_get? hget] at hv
      exact Fields.mem_keys_of_get? hv

/-- A table that conforms to the schema has no fields but those of the schema. -/
theorem Conforms.exists_isField (h : Conforms config) (hv : fieldAt config name key = some v) :
    ∃ rule, IsField name key rule := by
  obtain ⟨fields, hget, hkey⟩ := fieldAt_eq_some_iff.mp hv
  obtain ⟨⟨_, rules⟩, hsection, rfl⟩ :=
    List.mem_map.mp ((h.sections name).mp (Fields.mem_keys_of_get? hget))
  obtain ⟨fields', hget', hkeys⟩ := h.inner _ rules hsection
  obtain rfl := Value.table.inj (Option.some.inj (hget.symm.trans hget'))
  obtain ⟨⟨_, rule⟩, hrule, rfl⟩ := List.mem_map.mp ((hkeys key).mp (Fields.mem_keys_of_get? hkey))
  exact ⟨rule, rules, hsection, hrule⟩

/-- **The fields of the settings that are made** are the ones there were, with trimmed texts; a
field that was missing is missing in both, but a conforming table has them all. -/
theorem Conforms.fieldAt_normalizeTable (h : Conforms config) (name key : String) :
    fieldAt (normalizeTable config) name key = (fieldAt config name key).map stripped := by
  have hright := conforms_iff_right.mp h
  by_cases hfield : ∃ rule, IsField name key rule
  · obtain ⟨rule, hfield⟩ := hfield
    obtain ⟨v, hv, haccepts⟩ := h.value name key rule hfield
    rw [hv]
    refine hright.fieldAt_normalizeTable hfield ?_
    rw [hv]
    exact checkValue_eq_ok_iff.mpr ⟨haccepts, rfl⟩
  · have hnone {config : Fields Value} (h : Conforms config) : fieldAt config name key = none :=
      Option.eq_none_iff_forall_ne_some.mpr fun v hv => hfield (h.exists_isField hv)
    rw [hnone h, hnone (conforms_iff_right.mpr hright.normalizeTable)]
    rfl

/-- **Checked again**, the settings that were made are left as they are, since a trimmed text is
trimmed. -/
theorem Conforms.normalizeTable_normalizeTable (h : Conforms config) :
    normalizeTable (normalizeTable config) = normalizeTable config := by
  have hright := conforms_iff_right.mp h
  have hmade := conforms_iff_right.mpr hright.normalizeTable
  refine hright.normalizeTable.shaped_normalizeTable.ext hright.shaped_normalizeTable ?_
  intro name key rule _
  rw [hmade.fieldAt_normalizeTable, h.fieldAt_normalizeTable, Option.map_map]
  exact congrArg (Option.map · _) (funext stripped_stripped)

/-! ## What a section contributes -/

/-- **The issues that sections contribute**, with that of the version: all but those of unknown
sections. -/
def sectionsReport (config : Fields Value) : Except Decimal.OversizedInteger (List Issue) :=
  (versionIssues config).map
    (schema.flatMap (fun (name, rules) => checkSection name rules (config.get? name)) ++ ·)

/-- The section that a path leads to: what stands before its first point. -/
def sectionOf (path : String) : String :=
  String.ofList (path.toList.takeWhile (· != '.'))

/-- **The issues of a report that one section contributes**, in their order. -/
def contributed (name : String) (report : List Issue) : List Issue :=
  report.filter fun issue => sectionOf issue.path = name

variable {report report' : List Issue}

theorem sectionsReport_eq_ok_iff :
    sectionsReport config = .ok report
      ↔ ∃ version, versionIssues config = .ok version
          ∧ report = schema.flatMap
              (fun (name, rules) => checkSection name rules (config.get? name)) ++ version := by
  rw [sectionsReport]
  cases versionIssues config with
  | error e => simp [Except.map]
  | ok version => simp [Except.map, eq_comm]

theorem sectionOf_field (h : '.' ∉ name.toList) (key : String) :
    sectionOf (name ++ "." ++ key) = name := by
  have hname : ∀ c ∈ name.toList, (c != '.') = true :=
    fun c hc => bne_iff_ne.mpr fun e => h (e ▸ hc)
  have hrest : ((".".toList ++ key.toList).takeWhile (· != '.')) = [] := rfl
  rw [sectionOf, String.toList_append, String.toList_append, List.append_assoc,
    List.takeWhile_append_of_pos hname, hrest, List.append_nil, String.ofList_toList]

/-- The names of sections have no point, so that a path leads to one section. -/
theorem point_not_mem {rules : List (String × FieldRule)} (h : (name, rules) ∈ schema) :
    '.' ∉ name.toList := by
  have hall : ∀ section_ ∈ schema, '.' ∉ section_.1.toList := by decide
  exact hall _ h

/-- The check of a section reports issues of this section. -/
theorem sectionOf_of_mem_checkSection {rules : List (String × FieldRule)} {v : Option Value}
    {issue : Issue} (hsection : (name, rules) ∈ schema) (h : issue ∈ checkSection name rules v) :
    sectionOf issue.path = name := by
  have hpoint := point_not_mem hsection
  have hself : sectionOf name = name := by
    have hall : ∀ section_ ∈ schema, sectionOf section_.1 = section_.1 := by decide
    exact hall _ hsection
  unfold checkSection at h
  split at h
  · rw [List.mem_singleton.mp h]
    exact hself
  · rcases mem_sectionIssues_iff.mp h with ⟨key, -, -, rfl⟩ | ⟨key, rule, fault, -, -, rfl⟩
    · exact sectionOf_field hpoint key
    · exact sectionOf_field hpoint key
  · rw [List.mem_singleton.mp h]
    exact hself

theorem sectionOf_of_mem_versionIssues {version : List Issue} {issue : Issue}
    (h : versionIssues config = .ok version) (hissue : issue ∈ version) :
    sectionOf issue.path = "meta" := by
  obtain ⟨_, advice, -, -, -, rfl⟩ := (mem_versionIssues_iff h).mp hissue
  have hmeta : '.' ∉ "meta".toList := by decide
  exact sectionOf_field hmeta "schema_version"

/-- **Every issue of the report is one that a section of the schema contributes**: its path begins
with the name of the section. -/
theorem sectionOf_mem_keys {issue : Issue} (h : sectionsReport config = .ok report)
    (hissue : issue ∈ report) : sectionOf issue.path ∈ Fields.keys schema := by
  obtain ⟨version, hversion, rfl⟩ := sectionsReport_eq_ok_iff.mp h
  rcases List.mem_append.mp hissue with hsection | hmem
  · obtain ⟨⟨name, rules⟩, hschema, hmem⟩ := List.mem_flatMap.mp hsection
    rw [sectionOf_of_mem_checkSection hschema hmem]
    exact List.mem_map_of_mem hschema
  · rw [sectionOf_of_mem_versionIssues hversion hmem]
    decide

/-- **What a section contributes depends on that section alone.** The two tables may differ in all
other sections, in their versions too, as long as both have a report. -/
theorem contributed_congr (h : other.get? name = config.get? name)
    (hreport : sectionsReport config = .ok report) (hreport' : sectionsReport other = .ok report') :
    contributed name report' = contributed name report := by
  obtain ⟨version, hversion, rfl⟩ := sectionsReport_eq_ok_iff.mp hreport
  obtain ⟨version', hversion', rfl⟩ := sectionsReport_eq_ok_iff.mp hreport'
  have hsections (config : Fields Value) (section_ : String × List (String × FieldRule))
      (hschema : section_ ∈ schema) (hother : section_.1 ≠ name) :
      (checkSection section_.1 section_.2 (config.get? section_.1)).filter
        (fun issue => sectionOf issue.path = name) = [] := by
    refine List.filter_eq_nil_iff.mpr fun issue hissue hname => hother ?_
    rw [← sectionOf_of_mem_checkSection hschema hissue]
    exact of_decide_eq_true hname
  have hnone {config : Fields Value} {version : List Issue}
      (hversion : versionIssues config = .ok version) (hmeta : name ≠ "meta") :
      version.filter (fun issue => sectionOf issue.path = name) = [] := by
    refine List.filter_eq_nil_iff.mpr fun issue hissue hname => hmeta ?_
    rw [← sectionOf_of_mem_versionIssues hversion hissue]
    exact (of_decide_eq_true hname).symm
  rw [contributed, contributed, List.filter_append, List.filter_append, List.filter_flatMap,
    List.filter_flatMap]
  refine congrArg₂ (· ++ ·) (List.flatMap_congr fun section_ hschema => ?_) ?_
  · by_cases hname : section_.1 = name
    · subst hname
      dsimp only
      rw [h]
    · exact (hsections other section_ hschema hname).trans
        (hsections config section_ hschema hname).symm
  · by_cases hmeta : name = "meta"
    · subst hmeta
      -- The version stands in this section.
      have hstated : statedVersion? other = statedVersion? config := by
        rw [statedVersion?, statedVersion?, h]
      have hsame : versionIssues other = versionIssues config := by
        rw [versionIssues, versionIssues, hstated]
      rw [hsame, hversion] at hversion'
      rw [Except.ok.inj hversion']
    · rw [hnone hversion' hmeta, hnone hversion hmeta]

/-! ## Complete reports -/

/-- **A key is wrong in a section**: it is there and the schema does not ask for it, or the schema
asks for it and it is missing or has a value that is not accepted. -/
def Wrong (rules : List (String × FieldRule)) (fields : Fields Value) (key : String) : Prop :=
  (key ∈ Fields.keys fields ∧ key ∉ Fields.keys rules)
    ∨ ∃ rule, (key, rule) ∈ rules ∧ ∀ v, Fields.get? key fields = some v → ¬ Accepts rule v

/-- **A wrong key is reported where it is**, whatever else is wrong in the table, and provided there
is a report. -/
theorem exists_issue_of_wrong {rules : List (String × FieldRule)} {fields : Fields Value}
    (hreport : sectionsReport config = .ok report) (hsection : (name, rules) ∈ schema)
    (hget : config.get? name = some (.table fields)) (h : Wrong rules fields key) :
    ∃ fault, ⟨name ++ "." ++ key, fault⟩ ∈ contributed name report := by
  obtain ⟨version, -, rfl⟩ := sectionsReport_eq_ok_iff.mp hreport
  have hmem (fault : Fault)
      (hissue : ⟨name ++ "." ++ key, fault⟩ ∈ sectionIssues name rules fields) :
      ⟨name ++ "." ++ key, fault⟩ ∈ contributed name (schema.flatMap
        (fun (name, rules) => checkSection name rules (config.get? name)) ++ version) := by
    refine List.mem_filter.mpr ⟨List.mem_append_left _ (List.mem_flatMap.mpr ?_), ?_⟩
    · refine ⟨(name, rules), hsection, ?_⟩
      show _ ∈ checkSection name rules (config.get? name)
      rw [hget]
      exact hissue
    · exact decide_eq_true (sectionOf_field (point_not_mem hsection) key)
  rcases h with ⟨hkey, hunknown⟩ | ⟨rule, hrule, hwrong⟩
  · exact ⟨.unknown, hmem _ (mem_sectionIssues_iff.mpr (Or.inl ⟨key, hkey, hunknown, rfl⟩))⟩
  · cases hcheck : checkField rule (Fields.get? key fields) with
    | error fault =>
      refine ⟨fault, hmem fault (mem_sectionIssues_iff.mpr (Or.inr ?_))⟩
      exact ⟨key, rule, fault, hrule, hcheck, rfl⟩
    | ok w =>
      obtain ⟨v, hv, haccepts⟩ := exists_checkField_eq_ok_iff.mp ⟨w, hcheck⟩
      exact absurd haccepts (hwrong v hv)

/-! ## The check as a whole -/

theorem check_table_eq (config : Fields Value) :
    check (.table config)
      = (sectionsReport config).map
          ((unknownNames (Fields.keys schema) config).map (fun name => ⟨name, .unknown⟩) ++ ·) := by
  rw [check, checkTable, sectionsReport]
  cases versionIssues config with
  | error e => rfl
  | ok version => exact congrArg Except.ok (List.append_assoc _ _ version)

theorem exists_normalize_eq_ok_iff :
    (∃ made, normalize v = .ok made) ↔ ∃ config, v = .table config ∧ Conforms config := by
  cases v with
  | table config =>
    constructor
    · rintro ⟨made, h⟩
      exact ⟨config, rfl, conforms_iff_right.mpr (normalize_eq_ok_iff.mp h).1⟩
    · rintro ⟨_, ⟨⟩, h⟩
      exact ⟨_, normalize_eq_ok_iff.mpr ⟨conforms_iff_right.mp h, rfl⟩⟩
  | _ => exact iff_of_false (fun ⟨_, h⟩ => nomatch h) fun ⟨_, h, _⟩ => nomatch h

/-- **Where no settings are made**, all issues are reported, and there are some.  The report is that
of `check`, so nothing is cut off after the first issue. -/
theorem of_normalize_eq_issues {issues : List Issue} (h : normalize v = .error (.issues issues)) :
    check v = .ok issues ∧ issues ≠ [] := by
  cases v with
  | table config => exact normalize_issues_iff.mp h
  | _ =>
    obtain rfl := Rejection.issues.inj (Except.error.inj h)
    exact ⟨rfl, List.cons_ne_nil _ _⟩

theorem exists_normalize_eq_oversized_iff :
    (∃ e, normalize v = .error (.oversized e))
      ↔ ∃ config, v = .table config ∧ ¬ Nameable config := by
  cases v with
  | table config =>
    rw [normalize_oversized_iff]
    constructor
    · intro h
      exact ⟨config, rfl, h⟩
    · rintro ⟨_, ⟨⟩, h⟩
      exact h
  | _ => exact iff_of_false (fun ⟨_, h⟩ => nomatch h) fun ⟨_, h, _⟩ => nomatch h

/-- **The check is exact, complete and idempotent.**  Settings are made of a value if it is a table
that conforms to the schema, and only then; they have the sections and fields of the schema in its
order, with the texts of the table trimmed, and are left as they are when they are checked again.
Of any other value there is a report, which is not empty, unless it is a table that states a version
which cannot be named; then there is none.  For a table the report names the unknown sections and
then what each section of the schema contributes; that depends on this section alone, and has an
issue for each wrong key of a section that is a table, at the place of the key. -/
theorem normalize_exact (v : Value) :
    ((∃ made, normalize v = .ok made) ↔ ∃ config, v = .table config ∧ Conforms config)
      ∧ (∀ config made, v = .table config → normalize v = .ok made →
          Shaped made
            ∧ (∀ name key, fieldAt made name key = (fieldAt config name key).map stripped)
            ∧ normalize (.table made) = .ok made)
      ∧ (∀ issues, normalize v = .error (.issues issues) → check v = .ok issues ∧ issues ≠ [])
      ∧ ((∃ e, normalize v = .error (.oversized e))
          ↔ ∃ config, v = .table config ∧ ¬ Nameable config)
      ∧ ∀ config, v = .table config →
          check v = (sectionsReport config).map
              ((unknownNames (Fields.keys schema) config).map (fun name => ⟨name, .unknown⟩) ++ ·)
            ∧ ∀ report, sectionsReport config = .ok report →
                (∀ issue ∈ report, sectionOf issue.path ∈ Fields.keys schema)
                  ∧ (∀ name other report', sectionsReport other = .ok report' →
                      Fields.get? name other = Fields.get? name config →
                      contributed name report' = contributed name report)
                  ∧ ∀ name rules fields key, (name, rules) ∈ schema →
                      Fields.get? name config = some (.table fields) → Wrong rules fields key →
                      ∃ fault, ⟨name ++ "." ++ key, fault⟩ ∈ contributed name report := by
  refine ⟨exists_normalize_eq_ok_iff, ?_, fun issues h => of_normalize_eq_issues h,
    exists_normalize_eq_oversized_iff, ?_⟩
  · rintro config made rfl h
    obtain ⟨hright, rfl⟩ := normalize_eq_ok_iff.mp h
    have hconforms := conforms_iff_right.mpr hright
    refine ⟨hright.shaped_normalizeTable, hconforms.fieldAt_normalizeTable, ?_⟩
    refine normalize_eq_ok_iff.mpr ⟨hright.normalizeTable, ?_⟩
    exact hconforms.normalizeTable_normalizeTable.symm
  · rintro config rfl
    refine ⟨check_table_eq config, fun report hreport =>
      ⟨fun issue h => sectionOf_mem_keys hreport h,
        fun name other report' hreport' h => contributed_congr h hreport hreport', ?_⟩⟩
    intro name rules fields key hsection hget hwrong
    exact exists_issue_of_wrong hreport hsection hget hwrong

/-- **A table without a report**: it states a version of 4301 digits, all other fields are missing,
and no list of issues tells so.  The advice on the version cannot be worded, and with it the whole
report is lost. -/
theorem no_report_of_oversized_version :
    ∃ config, ¬ Conforms config ∧ ∀ issues,
      check (.table config) ≠ .ok issues ∧ normalize (.table config) ≠ .error (.issues issues) := by
  refine ⟨[("meta", .table [("schema_version", .int (10 ^ maxIntegerDigits))])], ?_, ?_⟩
  · intro h
    exact absurd ((h.sections "output").mpr (by decide)) (by decide)
  · intro issues
    have hnone :
        check (.table [("meta", .table [("schema_version", .int (10 ^ maxIntegerDigits))])])
          ≠ .ok issues := by
      intro h
      refine Decimal.not_short_ten_pow (Nat.le_refl maxIntegerDigits) ?_
      exact exists_check_eq_ok_iff.mp ⟨issues, h⟩ _ rfl (by decide +kernel)
    exact ⟨hnone, fun h => hnone (normalize_issues_iff.mp h).1⟩

end RuleCatalogue.Settings
