import RuleCatalogue.Proofs.Settings.Overlay
import RuleCatalogue.Proofs.Text.Substring
import RuleCatalogue.Settings.Validation

/-!
# What the check of settings reports

Issues concern unknown names, sections and fields of the schema, and the version (`mem_check_iff`).
The check gives them all unless the table states a version that has too many digits to be named in
an issue (`exists_check_eq_ok_iff`).  Settings without issues are right in every part (`Right`), and
what is made of them is right again (`Right.normalizeTable`): its texts are trimmed, and there is
nothing left to trim.

## Main definitions

* `IsField`: a field of the schema, with its rule.
* `Right`: settings that are right in every part.
* `Nameable`: the version that settings state is short enough for an issue.

## Main results

* `mem_check_iff`: all issues of a table.
* `check_eq_nil_iff`: there are none where everything is right, and only there.
* `normalize_eq_ok_iff`: when settings are made of a table, and which.
-/

namespace RuleCatalogue.Settings

variable {config : Fields Value} {name key : String} {rule : FieldRule}

/-- **A field of the schema**, with its rule. -/
def IsField (name key : String) (rule : FieldRule) : Prop :=
  ∃ rules, (name, rules) ∈ schema ∧ (key, rule) ∈ rules

theorem nodup_keys_schema : (Fields.keys schema).Nodup := by
  decide

theorem nodup_keys_rules {rules : List (String × FieldRule)} (h : (name, rules) ∈ schema) :
    (Fields.keys rules).Nodup := by
  have hall : ∀ section_ ∈ schema, (Fields.keys section_.2).Nodup := by decide
  exact hall _ h

theorem isField_iff :
    IsField name key rule
      ↔ (Fields.get? name schema).bind (fun rules => Fields.get? key rules) = some rule := by
  rw [Option.bind_eq_some_iff]
  refine exists_congr fun rules => ?_
  rw [Fields.get?_eq_some_iff nodup_keys_schema]
  refine and_congr_right fun hsection => ?_
  rw [Fields.get?_eq_some_iff (nodup_keys_rules hsection)]

/-- The schema has one rule for a field. -/
theorem IsField.unique {rule' : FieldRule} (h : IsField name key rule)
    (h' : IsField name key rule') : rule = rule' :=
  Option.some.inj ((isField_iff.mp h).symm.trans (isField_iff.mp h'))

instance : Decidable (IsField name key rule) :=
  decidable_of_iff' _ isField_iff

/-! ## Unknown names -/

theorem mem_unknownNames {known : List String} {fields : Fields Value} :
    name ∈ unknownNames known fields ↔ name ∈ fields.keys ∧ name ∉ known := by
  rw [unknownNames, (List.mergeSort_perm _ _).mem_iff, List.mem_filter]
  simp

theorem mem_sectionIssues_iff {rules : List (String × FieldRule)} {fields : Fields Value}
    {issue : Issue} :
    issue ∈ sectionIssues name rules fields
      ↔ (∃ key ∈ Fields.keys fields, key ∉ Fields.keys rules
            ∧ issue = ⟨name ++ "." ++ key, .unknown⟩)
        ∨ ∃ key rule fault, (key, rule) ∈ rules
            ∧ checkField rule (fields.get? key) = .error fault
            ∧ issue = ⟨name ++ "." ++ key, fault⟩ := by
  rw [sectionIssues, List.mem_append, List.mem_map, List.mem_filterMap]
  refine or_congr ⟨?_, ?_⟩ ⟨?_, ?_⟩
  · rintro ⟨key, hkey, rfl⟩
    obtain ⟨hmem, hunknown⟩ := mem_unknownNames.mp hkey
    exact ⟨key, hmem, hunknown, rfl⟩
  · rintro ⟨key, hmem, hunknown, rfl⟩
    exact ⟨key, mem_unknownNames.mpr ⟨hmem, hunknown⟩, rfl⟩
  · rintro ⟨⟨key, rule⟩, hrule, h⟩
    dsimp only at h
    split at h
    · exact nomatch h
    · next fault hfault => exact ⟨key, rule, fault, hrule, hfault, (Option.some.inj h).symm⟩
  · rintro ⟨key, rule, fault, hrule, hfault, rfl⟩
    refine ⟨(key, rule), hrule, ?_⟩
    dsimp only
    rw [hfault]

theorem mem_sectionsIssues_iff {issue : Issue} :
    issue ∈ sectionsIssues config
      ↔ (∃ name ∈ config.keys, name ∉ Fields.keys schema ∧ issue = ⟨name, .unknown⟩)
        ∨ ∃ name rules, (name, rules) ∈ schema
            ∧ issue ∈ checkSection name rules (config.get? name) := by
  rw [sectionsIssues, List.mem_append, List.mem_map, List.mem_flatMap]
  refine or_congr ⟨?_, ?_⟩ ⟨?_, ?_⟩
  · rintro ⟨name, hname, rfl⟩
    obtain ⟨hmem, hunknown⟩ := mem_unknownNames.mp hname
    exact ⟨name, hmem, hunknown, rfl⟩
  · rintro ⟨name, hmem, hunknown, rfl⟩
    exact ⟨name, mem_unknownNames.mpr ⟨hmem, hunknown⟩, rfl⟩
  · rintro ⟨⟨name, rules⟩, hsection, h⟩
    exact ⟨name, rules, hsection, h⟩
  · rintro ⟨name, rules, hsection, h⟩
    exact ⟨(name, rules), hsection, h⟩

/-! ## The version -/

/-- A whole number is right if it is not too small, and nothing else is. -/
theorem checkField_integer_eq_ok_iff {least : Int} {v : Option Value} {w : Value} :
    checkField (.integer least) v = .ok w ↔ ∃ n, v = some (.int n) ∧ least ≤ n ∧ w = .int n := by
  cases v with
  | none => simp [checkField]
  | some v =>
    cases v with
    | int n =>
      by_cases hn : n < least
      · simp [checkField, checkValue, hn, Int.not_le.mpr hn]
      · simpa [checkField, checkValue, hn, Int.not_lt.mp hn] using eq_comm
    | _ => simp [checkField, checkValue]

theorem statedVersion?_eq_some_iff {version : Int} :
    statedVersion? config = some version
      ↔ checkField (.integer 1) (fieldAt config "meta" "schema_version") = .ok (.int version) := by
  unfold statedVersion?
  split
  · next fields hget =>
    rw [fieldAt_of_get? hget]
    split
    · next n hn => simp [hn]
    · next hnone => exact iff_of_false (by rintro ⟨⟩) (hnone version)
  · next hnone =>
    refine iff_of_false (by rintro ⟨⟩) fun h => ?_
    obtain ⟨n, hfield, -⟩ := checkField_integer_eq_ok_iff.mp h
    obtain ⟨fields, hget, -⟩ := fieldAt_eq_some_iff.mp hfield
    exact hnone fields hget

/-- **The version that settings state can be named** in an issue: if it is a positive integer, it
has no more digits than are ever written. -/
def Nameable (config : Fields Value) : Prop :=
  ∀ version : Int, fieldAt config "meta" "schema_version" = some (.int version) → 1 ≤ version →
    Decimal.Short version

theorem nameable_iff :
    Nameable config
      ↔ ∀ version, statedVersion? config = some version → Decimal.Short version := by
  refine forall_congr' fun version => ?_
  rw [statedVersion?_eq_some_iff, checkField_integer_eq_ok_iff]
  constructor
  · rintro h ⟨n, hfield, hleast, heq⟩
    obtain rfl := Value.int.inj heq
    exact h hfield hleast
  · intro h hfield hleast
    exact h ⟨version, hfield, hleast, rfl⟩

/-- The advice on a version can be given if its digits can. -/
theorem exists_versionAdvice_iff {version : Int} :
    (∃ advice, versionAdvice version = .ok advice) ↔ Decimal.Short version := by
  by_cases hshort : Decimal.Short version
  · refine iff_of_true ?_ hshort
    rw [versionAdvice, Decimal.integerText, if_pos hshort]
    split_ifs
    all_goals exact ⟨_, rfl⟩
  · have hne : version ≠ schemaVersion := by
      rintro rfl
      exact hshort (by decide)
    refine iff_of_false (fun ⟨advice, h⟩ => ?_) hshort
    rw [versionAdvice, Decimal.integerText, if_neg hshort] at h
    rcases Int.lt_or_gt_of_ne hne with hlt | hgt
    · rw [if_pos hlt] at h
      exact nomatch h
    · rw [if_neg (Int.not_lt.mpr (Int.le_of_lt hgt)), if_pos hgt] at h
      exact nomatch h

/-- **The issue of the version** is there for each other version, unless it cannot be worded: the
advice names the version, and an integer of too many digits has no text. -/
theorem versionIssues_eq_ok_iff {issues : List Issue} :
    versionIssues config = .ok issues
      ↔ (issues = [] ∧ ∀ version, statedVersion? config = some version → version = schemaVersion)
        ∨ ∃ version advice, statedVersion? config = some version ∧ version ≠ schemaVersion
            ∧ versionAdvice version = .ok advice
            ∧ issues = [⟨"meta.schema_version", .otherVersion advice⟩] := by
  rw [versionIssues]
  cases hstated : statedVersion? config with
  | none => simp [eq_comm]
  | some version =>
    by_cases hversion : version = schemaVersion
    · simp [hversion, eq_comm]
    · cases hadvice : versionAdvice version with
      | error e => simp [hversion, hadvice, Except.map]
      | ok advice => simp [hversion, hadvice, Except.map, eq_comm]

theorem mem_versionIssues_iff {issues : List Issue} {issue : Issue}
    (h : versionIssues config = .ok issues) :
    issue ∈ issues
      ↔ ∃ version advice, statedVersion? config = some version ∧ version ≠ schemaVersion
          ∧ versionAdvice version = .ok advice
          ∧ issue = ⟨"meta.schema_version", .otherVersion advice⟩ := by
  rcases versionIssues_eq_ok_iff.mp h with
    ⟨rfl, hpresent⟩ | ⟨version, advice, hstated, hversion, hadvice, rfl⟩
  · refine iff_of_false List.not_mem_nil ?_
    rintro ⟨version, -, hstated, hversion, -⟩
    exact hversion (hpresent version hstated)
  · rw [List.mem_singleton]
    constructor
    · intro hissue
      exact ⟨version, advice, hstated, hversion, hadvice, hissue⟩
    · rintro ⟨version', advice', hstated', -, hadvice', rfl⟩
      obtain rfl := Option.some.inj (hstated.symm.trans hstated')
      rw [Except.ok.inj (hadvice.symm.trans hadvice')]

theorem exists_versionIssues_iff :
    (∃ issues, versionIssues config = .ok issues) ↔ Nameable config := by
  rw [nameable_iff]
  constructor
  · rintro ⟨issues, h⟩ version hstated
    rcases versionIssues_eq_ok_iff.mp h with
      ⟨-, hpresent⟩ | ⟨version', advice, hstated', -, hadvice, -⟩
    · rw [hpresent version hstated]
      decide
    · obtain rfl := Option.some.inj (hstated.symm.trans hstated')
      exact exists_versionAdvice_iff.mp ⟨advice, hadvice⟩
  · intro h
    by_cases hpresent : ∀ version, statedVersion? config = some version → version = schemaVersion
    · exact ⟨[], versionIssues_eq_ok_iff.mpr (Or.inl ⟨rfl, hpresent⟩)⟩
    · obtain ⟨version, hother⟩ := not_forall.mp hpresent
      obtain ⟨hstated, hversion⟩ := Classical.not_imp.mp hother
      obtain ⟨advice, hadvice⟩ := exists_versionAdvice_iff.mpr (h version hstated)
      exact ⟨_, versionIssues_eq_ok_iff.mpr
        (Or.inr ⟨version, advice, hstated, hversion, hadvice, rfl⟩)⟩

theorem check_eq_ok_iff {issues : List Issue} :
    check (.table config) = .ok issues
      ↔ ∃ version, versionIssues config = .ok version
          ∧ issues = sectionsIssues config ++ version := by
  rw [check, checkTable]
  cases versionIssues config with
  | error e => exact iff_of_false (fun h => nomatch h) fun ⟨_, h, _⟩ => nomatch h
  | ok version =>
    constructor
    · rintro ⟨⟩
      exact ⟨version, rfl, rfl⟩
    · rintro ⟨_, ⟨⟩, rfl⟩
      rfl

/-- **The check gives a report**, with issues or none, of each table whose version can be named, and
of no other one.  So `Nameable` is all that stands between a table and its report. -/
theorem exists_check_eq_ok_iff :
    (∃ issues, check (.table config) = .ok issues) ↔ Nameable config := by
  rw [← exists_versionIssues_iff]
  constructor
  · rintro ⟨issues, h⟩
    obtain ⟨version, hversion, -⟩ := check_eq_ok_iff.mp h
    exact ⟨version, hversion⟩
  · rintro ⟨version, hversion⟩
    exact ⟨_, check_eq_ok_iff.mpr ⟨version, hversion, rfl⟩⟩

/-! ## All issues -/

/-- The issues of sections are reported wherever anything is. -/
theorem mem_check_of_mem_sectionsIssues {issues : List Issue} {issue : Issue}
    (h : check (.table config) = .ok issues) (hissue : issue ∈ sectionsIssues config) :
    issue ∈ issues := by
  obtain ⟨version, -, rfl⟩ := check_eq_ok_iff.mp h
  exact List.mem_append_left version hissue

/-- **All issues of a table** are those of its sections and the one of its version. -/
theorem mem_check_iff {issues : List Issue} {issue : Issue}
    (h : check (.table config) = .ok issues) :
    issue ∈ issues
      ↔ issue ∈ sectionsIssues config
        ∨ ∃ version advice, statedVersion? config = some version ∧ version ≠ schemaVersion
            ∧ versionAdvice version = .ok advice
            ∧ issue = ⟨"meta.schema_version", .otherVersion advice⟩ := by
  obtain ⟨version, hversion, rfl⟩ := check_eq_ok_iff.mp h
  rw [List.mem_append, mem_versionIssues_iff hversion]

/-- **An unknown section** has an issue. -/
theorem mem_sectionsIssues_of_unknown_section (hname : name ∈ config.keys)
    (h : name ∉ Fields.keys schema) : ⟨name, .unknown⟩ ∈ sectionsIssues config :=
  mem_sectionsIssues_iff.mpr (Or.inl ⟨name, hname, h, rfl⟩)

/-- **An unknown field** of a section has an issue. -/
theorem mem_sectionsIssues_of_unknown_field {rules : List (String × FieldRule)}
    (hsection : (name, rules) ∈ schema) (hfield : fieldAt config name key ≠ none)
    (h : key ∉ Fields.keys rules) :
    ⟨name ++ "." ++ key, .unknown⟩ ∈ sectionsIssues config := by
  obtain ⟨v, hv⟩ := Option.ne_none_iff_exists'.mp hfield
  obtain ⟨fields, hget, hkey⟩ := fieldAt_eq_some_iff.mp hv
  refine mem_sectionsIssues_iff.mpr (Or.inr ⟨name, rules, hsection, ?_⟩)
  rw [hget]
  exact mem_sectionIssues_iff.mpr (Or.inl ⟨key, Fields.mem_keys_of_get? hkey, h, rfl⟩)

/-! ## Settings without issues -/

/-- **Settings are right**: there is nothing beyond the schema, every section is a table, every
field has a value that its rule allows, and the version is the present one. -/
structure Right (config : Fields Value) : Prop where
  known : ∀ name ∈ config.keys, name ∈ Fields.keys schema
  inner : ∀ name rules, (name, rules) ∈ schema → ∃ fields, config.get? name = some (.table fields)
    ∧ ∀ key ∈ Fields.keys fields, key ∈ Fields.keys rules
  value : ∀ name key rule, IsField name key rule →
    ∃ v, checkField rule (fieldAt config name key) = .ok v
  version : fieldAt config "meta" "schema_version" = some (.int schemaVersion)

theorem statedVersion?_of_right (h : Right config) :
    statedVersion? config = some schemaVersion := by
  rw [statedVersion?_eq_some_iff, h.version]
  rfl

theorem right_of_check_eq_nil (h : check (.table config) = .ok []) : Right config := by
  have hno (issue : Issue) : issue ∉ sectionsIssues config :=
    fun hissue => List.not_mem_nil (mem_check_of_mem_sectionsIssues h hissue)
  have hinner : ∀ name rules, (name, rules) ∈ schema →
      ∃ fields, config.get? name = some (.table fields)
        ∧ ∀ issue, issue ∉ sectionIssues name rules fields := by
    intro name rules hsection
    have hnone (issue : Issue) : issue ∉ checkSection name rules (config.get? name) :=
      fun hissue => hno issue (mem_sectionsIssues_iff.mpr (Or.inr ⟨name, rules, hsection, hissue⟩))
    cases hget : config.get? name with
    | none =>
      rw [hget] at hnone
      exact absurd List.mem_cons_self (hnone ⟨name, .missing⟩)
    | some v =>
      rw [hget] at hnone
      cases v with
      | table fields => exact ⟨fields, rfl, hnone⟩
      | _ => exact absurd List.mem_cons_self (hnone _)
  have hvalue : ∀ name key rule, IsField name key rule →
      ∃ v, checkField rule (fieldAt config name key) = .ok v := by
    rintro name key rule ⟨rules, hsection, hrule⟩
    obtain ⟨fields, hget, hnone⟩ := hinner name rules hsection
    rw [fieldAt_of_get? hget]
    cases hcheck : checkField rule (Fields.get? key fields) with
    | ok v => exact ⟨v, rfl⟩
    | error fault =>
      refine absurd ?_ (hnone ⟨name ++ "." ++ key, fault⟩)
      exact mem_sectionIssues_iff.mpr (Or.inr ⟨key, rule, fault, hrule, hcheck, rfl⟩)
  refine ⟨fun name hname => ?_, fun name rules hsection => ?_, hvalue, ?_⟩
  · refine Decidable.not_not.mp fun hunknown => ?_
    exact hno _ (mem_sectionsIssues_of_unknown_section hname hunknown)
  · obtain ⟨fields, hget, hnone⟩ := hinner name rules hsection
    refine ⟨fields, hget, fun key hkey => Decidable.not_not.mp fun hunknown => ?_⟩
    exact hnone _ (mem_sectionIssues_iff.mpr (Or.inl ⟨key, hkey, hunknown, rfl⟩))
  · obtain ⟨v, hv⟩ := hvalue "meta" "schema_version" (.integer 1) (by decide)
    obtain ⟨n, hfield, -, rfl⟩ := checkField_integer_eq_ok_iff.mp hv
    have hstated : statedVersion? config = some n := statedVersion?_eq_some_iff.mpr hv
    have hpresent : n = schemaVersion := by
      refine Decidable.not_not.mp fun hn => ?_
      -- Its advice can be given, for otherwise there would be no report.
      have hshort : Decimal.Short n := nameable_iff.mp (exists_check_eq_ok_iff.mp ⟨[], h⟩) n hstated
      obtain ⟨advice, hadvice⟩ := exists_versionAdvice_iff.mpr hshort
      exact List.not_mem_nil
        ((mem_check_iff h).mpr (Or.inr ⟨n, advice, hstated, hn, hadvice, rfl⟩))
    rw [hfield, hpresent]

/-- **There are no issues where everything is right**, and only there.  `Right` is about the table;
the check goes through it section by section. -/
theorem check_eq_nil_iff : check (.table config) = .ok [] ↔ Right config := by
  refine ⟨right_of_check_eq_nil, fun h => ?_⟩
  have hstated := statedVersion?_of_right h
  have hversion : versionIssues config = .ok [] := by
    rw [versionIssues, hstated]
    rfl
  refine check_eq_ok_iff.mpr ⟨[], hversion, ?_⟩
  rw [List.append_nil]
  refine (List.eq_nil_iff_forall_not_mem.mpr fun issue hissue => ?_).symm
  rcases mem_sectionsIssues_iff.mp hissue with
    ⟨name, hname, hunknown, -⟩ | ⟨name, rules, hsection, hmem⟩
  · exact hunknown (h.known name hname)
  · obtain ⟨fields, hget, hknown⟩ := h.inner name rules hsection
    rw [hget] at hmem
    rcases mem_sectionIssues_iff.mp hmem with
      ⟨key, hkey, hunknown, -⟩ | ⟨key, rule, fault, hrule, hfault, -⟩
    · exact hunknown (hknown key hkey)
    · obtain ⟨v, hv⟩ := h.value name key rule ⟨rules, hsection, hrule⟩
      rw [fieldAt_of_get? hget, hfault] at hv
      exact nomatch hv

/-! ## What is made of settings without issues -/

variable {v w : Value}

/-- **What is right stays right**: a value that the check has trimmed passes it as it is.  This is
idempotence for one value. -/
theorem checkValue_of_ok (h : checkValue rule v = .ok w) : checkValue rule w = .ok w := by
  unfold checkValue at h
  split at h
  · cases h
    rfl
  · exact nomatch h
  · split at h
    · exact nomatch h
    · next hleast =>
      cases h
      rw [checkValue, if_neg hleast]
  · exact nomatch h
  · next rule s htruth hinteger =>
    split at h
    · exact nomatch h
    · next hblank =>
      split at h
      · exact nomatch h
      · next hfault =>
        cases h
        rw [checkValue, Text.isBlankText_trimmed, if_neg hblank, Text.trimmed_trimmed, hfault]
        · exact htruth
        · exact hinteger
  · exact nomatch h

theorem normalizeSection_eq (rules : List (String × FieldRule)) (fields : Fields Value) :
    normalizeSection rules fields
      = rules.filterMap fun field =>
          ((checkField field.2 (fields.get? field.1)).toOption).map (field.1, ·) := by
  refine congrArg (List.filterMap · rules) (funext fun (key, rule) => ?_)
  cases hcheck : checkField rule (fields.get? key) with
  | ok v => simp [hcheck, Except.toOption]
  | error fault => simp [hcheck, Except.toOption]

/-- The section that is made of a value, if it is a table. -/
def normalizedSection? (rules : List (String × FieldRule)) : Option Value → Option Value
  | some (.table fields) => some (.table (normalizeSection rules fields))
  | _ => none

theorem normalizeTable_eq (config : Fields Value) :
    normalizeTable config
      = schema.filterMap fun section_ =>
          (normalizedSection? section_.2 (config.get? section_.1)).map (section_.1, ·) := by
  refine congrArg (List.filterMap · schema) (funext fun (name, rules) => ?_)
  dsimp only
  cases config.get? name with
  | none => rfl
  | some v => cases v <;> rfl

/-- **Settings have the shape of the schema**: its sections with its fields, each in its order. -/
structure Shaped (config : Fields Value) : Prop where
  names : config.keys = Fields.keys schema
  inner : ∀ name rules, (name, rules) ∈ schema → ∃ fields, config.get? name = some (.table fields)
    ∧ Fields.keys fields = Fields.keys rules

/-- **Settings of this shape are determined by the values of their fields**: the names and their
order are those of the schema. -/
theorem Shaped.ext {first second : Fields Value} (h : Shaped first) (h' : Shaped second)
    (hfields : ∀ name key rule, IsField name key rule →
      fieldAt first name key = fieldAt second name key) : first = second := by
  have hnames : first.keys = second.keys := h.names.trans h'.names.symm
  have hnodup : first.keys.Nodup := h.names ▸ nodup_keys_schema
  refine Fields.ext_get? hnodup hnames fun name => ?_
  by_cases hname : name ∈ Fields.keys schema
  · obtain ⟨⟨_, rules⟩, hsection, rfl⟩ := List.mem_map.mp hname
    obtain ⟨fields, hget, hkeys⟩ := h.inner _ rules hsection
    obtain ⟨fields', hget', hkeys'⟩ := h'.inner _ rules hsection
    have hsame : fields = fields' := by
      have hnodup : (Fields.keys fields).Nodup := hkeys ▸ nodup_keys_rules hsection
      refine Fields.ext_get? hnodup (hkeys.trans hkeys'.symm) fun key => ?_
      by_cases hkey : key ∈ Fields.keys rules
      · obtain ⟨⟨_, rule⟩, hrule, rfl⟩ := List.mem_map.mp hkey
        have hfield := hfields _ _ rule ⟨rules, hsection, hrule⟩
        rwa [fieldAt_of_get? hget, fieldAt_of_get? hget'] at hfield
      · rw [Fields.get?_eq_none_iff.mpr (hkeys ▸ hkey), Fields.get?_eq_none_iff.mpr (hkeys' ▸ hkey)]
    rw [hget, hget', hsame]
  · rw [Fields.get?_eq_none_iff.mpr (h.names ▸ hname),
      Fields.get?_eq_none_iff.mpr (h'.names ▸ hname)]

namespace Right

theorem get?_normalizeTable (h : Right config) {rules : List (String × FieldRule)}
    (hsection : (name, rules) ∈ schema) :
    ∃ fields, config.get? name = some (.table fields)
      ∧ (normalizeTable config).get? name = some (.table (normalizeSection rules fields)) := by
  obtain ⟨fields, hget, -⟩ := h.inner name rules hsection
  refine ⟨fields, hget, ?_⟩
  rw [normalizeTable_eq,
    Fields.get?_filterMap (fun name rules => normalizedSection? rules (config.get? name))
      nodup_keys_schema,
    (Fields.get?_eq_some_iff nodup_keys_schema).mpr hsection, Option.bind_some, hget]
  rfl

/-- **What is made of right settings** has the shape of the schema, whatever the order in the file
was. -/
theorem shaped_normalizeTable (h : Right config) : Shaped (normalizeTable config) where
  names := by
    rw [normalizeTable_eq]
    refine Fields.keys_filterMap
      (f := fun name rules => normalizedSection? rules (config.get? name))
      fun (name, rules) hsection => ?_
    obtain ⟨fields, hget, -⟩ := h.inner name rules hsection
    rw [hget]
    rfl
  inner name rules hsection := by
    obtain ⟨fields, hget, hnormalized⟩ := h.get?_normalizeTable hsection
    refine ⟨_, hnormalized, ?_⟩
    rw [normalizeSection_eq]
    refine Fields.keys_filterMap
      (f := fun key rule => (checkField rule (Fields.get? key fields)).toOption)
      fun (key, rule) hrule => ?_
    obtain ⟨v, hv⟩ := h.value name key rule ⟨rules, hsection, hrule⟩
    rw [fieldAt_of_get? hget] at hv
    rw [hv]
    rfl

/-- Its fields are the checked ones. -/
theorem fieldAt_normalizeTable (h : Right config) (hfield : IsField name key rule)
    (hv : checkField rule (fieldAt config name key) = .ok v) :
    fieldAt (normalizeTable config) name key = some v := by
  obtain ⟨rules, hsection, hrule⟩ := hfield
  obtain ⟨fields, hget, hnormalized⟩ := h.get?_normalizeTable hsection
  rw [fieldAt_of_get? hget] at hv
  rw [fieldAt_of_get? hnormalized, normalizeSection_eq,
    Fields.get?_filterMap (fun key rule => (checkField rule (Fields.get? key fields)).toOption)
      (nodup_keys_rules hsection),
    (Fields.get?_eq_some_iff (nodup_keys_rules hsection)).mpr hrule, Option.bind_some, hv]
  rfl

end Right

/-- Settings of the right shape are right if their values are. -/
theorem Shaped.right (h : Shaped config)
    (hvalue : ∀ name key rule, IsField name key rule →
      ∃ v, checkField rule (fieldAt config name key) = .ok v)
    (hversion : fieldAt config "meta" "schema_version" = some (.int schemaVersion)) :
    Right config where
  known name hname := h.names ▸ hname
  inner name rules hsection := by
    obtain ⟨fields, hget, hkeys⟩ := h.inner name rules hsection
    exact ⟨fields, hget, fun key hkey => hkeys ▸ hkey⟩
  value := hvalue
  version := hversion

/-- **What is made of right settings is right**, by `checkValue_of_ok` for each field. -/
protected theorem Right.normalizeTable (h : Right config) : Right (normalizeTable config) := by
  refine h.shaped_normalizeTable.right (fun name key rule hfield => ?_) ?_
  · obtain ⟨v, hv⟩ := h.value name key rule hfield
    rw [h.fieldAt_normalizeTable hfield hv]
    cases hget : fieldAt config name key with
    | none =>
      rw [hget] at hv
      exact nomatch hv
    | some w =>
      rw [hget] at hv
      exact ⟨v, checkValue_of_ok hv⟩
  · have hfield : IsField "meta" "schema_version" (.integer 1) := by decide
    refine h.fieldAt_normalizeTable hfield ?_
    rw [h.version]
    rfl

/-- **Settings are made of a table** if everything in it is right, and then they are the ones of
`Settings.normalizeTable`. -/
theorem normalize_eq_ok_iff {made : Fields Value} :
    normalize (.table config) = .ok made
      ↔ Right config ∧ made = Settings.normalizeTable config := by
  rw [← check_eq_nil_iff]
  cases hcheck : check (.table config) with
  | error e => simp [normalize, hcheck]
  | ok issues =>
    cases issues with
    | nil => simp [normalize, hcheck, eq_comm]
    | cons issue rest => simp [normalize, hcheck]

/-- **A table is rejected without a list of issues** if its version cannot be named, whatever else
is wrong or right in it. -/
theorem normalize_oversized_iff :
    (∃ e, normalize (.table config) = .error (.oversized e)) ↔ ¬ Nameable config := by
  rw [← exists_check_eq_ok_iff]
  cases hcheck : check (.table config) with
  | error e => exact iff_of_true ⟨e, by simp only [normalize, hcheck]⟩ fun ⟨_, h⟩ => nomatch h
  | ok issues =>
    refine iff_of_false ?_ (not_not_intro ⟨issues, rfl⟩)
    cases issues <;> simp [normalize, hcheck]

/-- **A table is rejected with all its issues**, and there are some: an empty list would not be a
rejection. -/
theorem normalize_issues_iff {issues : List Issue} :
    normalize (.table config) = .error (.issues issues)
      ↔ check (.table config) = .ok issues ∧ issues ≠ [] := by
  cases hcheck : check (.table config) with
  | error e => simp [normalize, hcheck]
  | ok found =>
    cases found with
    | nil => simp [normalize, hcheck, eq_comm]
    | cons issue rest =>
      simp only [normalize, hcheck, Except.error.injEq, Rejection.issues.injEq, Except.ok.injEq]
      exact (and_iff_left_of_imp fun h => h ▸ List.cons_ne_nil issue rest).symm

end RuleCatalogue.Settings
