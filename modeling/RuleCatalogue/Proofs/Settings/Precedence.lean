import RuleCatalogue.Proofs.Decimal
import RuleCatalogue.Proofs.Settings.Assigned
import RuleCatalogue.Proofs.Toml.Document

/-!
# How settings load, and how they fail to

In the settings of all layers each field has the value of the highest layer that sets it: an option,
a variable, the settings file, the defaults (`load_precedence`).  What the file holds beyond the
schema is kept, and so it is reported wherever the check gives a report; it gives none of settings
that state a version with too many digits (`unknown_section_not_reported`).

Settings fail to load in foreseen ways but for four: the settings file is no text, one of its
integers has too many digits to be read, a path field begins with a home directory that is not
known, or the version has too many digits to be written into an issue.  Settings that load are
right.

## Main results

* `load_unforeseen_iff`: when loading fails in a way that is not foreseen.
* `check_of_load`: what is loaded passes the check.
-/

/-! ## Which layer decides -/

namespace RuleCatalogue.Settings

/-- **The settings of all layers**, before paths are made absolute. -/
def merged (path : Path) (isRequired : Bool) (contents : Except FileError Octets)
    (bindings : Fields String) (options : Fields Value) : Except Failure (Fields Value) :=
  (layers path isRequired contents bindings options).map fun found => found.foldl overlay defaults

/-- Settings with their paths made absolute, if they are right. -/
def finished (environment : Environment) (base : Path) (config : Fields Value) :
    Except Failure (Fields Value) := do
  let placed ← (absolutePaths environment base config).mapError .home
  (normalize (.table placed)).mapError .ofRejection

variable {path : Path} {isRequired : Bool} {contents : Except FileError Octets}
  {bindings : Fields String} {options file config : Fields Value} {name key : String}
  {rule : FieldRule}

theorem load_eq (environment : Environment) :
    load environment path isRequired contents bindings options
      = merged path isRequired contents bindings options
          >>= finished environment path.parent := by
  rw [load, merged]
  cases layers path isRequired contents bindings options with
  | error e => rfl
  | ok found => rfl

/-- **A settings file** holds no name twice: a missing one is empty, and the reader of TOML refuses
the rest (`Toml.reads_parse`). -/
theorem distinct_fileLayer (h : fileLayer path isRequired contents = .ok file) :
    Value.Distinct (.table file) := by
  unfold fileLayer at h
  split at h
  · split at h
    · exact nomatch h
    · cases h
      exact Value.distinct_empty
  · exact nomatch h
  · split at h
    · exact nomatch h
    · split at h
      · next text _ _ v hparse =>
        cases h
        obtain ⟨fields, rfl, hdistinct⟩ := (Toml.reads_parse _).of_ok hparse
        exact hdistinct
      · exact nomatch h
      · exact nomatch h

/-- A settings file is the layer of what its statements leave at the root of the document, if it is
text and has no carriage returns; those would be changed before the statements are read. -/
theorem fileLayer_of_statements {octets : Octets} {text : List Char} {fields : Fields Value}
    (hdecoded : Encoding.utf8.decodeAll octets = .ok text) (hreturn : '\r' ∉ text)
    (h : (Toml.Document.statements (4 * text.length + 4) {} text).map Toml.Document.root
      = .ok fields) :
    fileLayer path isRequired (.ok octets) = .ok fields := by
  obtain ⟨d, hread, rfl⟩ := Fallible.map_eq_ok_iff.mp h
  have hparsed : Toml.parse (String.ofList text) = .ok (.table d.root) :=
    Toml.parse_of_not_mem (by rwa [String.toList_ofList]) (by rwa [String.toList_ofList])
  simp only [fileLayer, hdecoded, hparsed]
  rfl

/-- A settings file, variables and options laid over the defaults. -/
def stacked (file : Fields Value) (bindings : Fields String) (options : Fields Value) :
    Fields Value :=
  overlay (overlay (overlay defaults file) (assigned [] (variableAssignments bindings)))
    (assigned [] (optionAssignments options))

theorem merged_eq (hfile : fileLayer path isRequired contents = .ok file)
    (hbindings : Coerces bindings) (hoptions : WellFormed options) :
    merged path isRequired contents bindings options = .ok (stacked file bindings options) := by
  rw [merged, layers, hfile, variableLayer_eq hbindings, optionLayer_eq hoptions]
  rfl

/-- The defaults have a value for every field, and none is a table. -/
theorem IsField.exists_default (h : IsField name key rule) :
    ∃ v, fieldAt defaults name key = some v ∧ ∀ fields, v ≠ .table fields := by
  have hall : ∀ section_ ∈ schema, ∀ field ∈ section_.2,
      (fieldAt defaults section_.1 field.1).any fun v => v.fields?.isNone := by
    decide
  obtain ⟨rules, hsection, hrule⟩ := h
  have hany := hall _ hsection _ hrule
  cases hv : fieldAt defaults name key with
  | none =>
    rw [hv] at hany
    exact nomatch hany
  | some v =>
    refine ⟨v, rfl, ?_⟩
    rintro fields rfl
    rw [hv] at hany
    exact nomatch hany

/-- **The highest layer that sets a field decides.** `hfile` asks that the section is a table in the
file, if it is there; the other layers have tables for sections by construction. -/
theorem fieldAt_stacked (hfile : HasSection file name)
    (hdistinct : ∀ v, fieldAt file name key = some v → v.Distinct)
    (hoptions : WellFormed options) (h : IsField name key rule) :
    fieldAt (stacked file bindings options) name key
      = (optionValue? options name key).or ((variableValue? bindings name key rule).or
          ((fieldAt file name key).or (fieldAt defaults name key))) := by
  have hdefault : ∀ fields, fieldAt defaults name key ≠ some (.table fields) := by
    obtain ⟨v, hv, hplain⟩ := h.exists_default
    intro fields heq
    exact hplain fields (Option.some.inj (hv.symm.trans heq))
  have hvariable : ∀ fields,
      fieldAt (assigned [] (variableAssignments bindings)) name key ≠ some (.table fields) := by
    rw [fieldAt_variables bindings h]
    exact variableValue?_ne_table bindings name key rule
  have hoption : ∀ fields,
      fieldAt (assigned [] (optionAssignments options)) name key ≠ some (.table fields) := by
    rw [fieldAt_options hoptions h]
    exact optionValue?_ne_table hoptions name key
  rw [stacked, fieldAt_overlay_of_not_table (hasSection_assigned hasSection_empty _ name) hoption,
    fieldAt_overlay_of_not_table (hasSection_assigned hasSection_empty _ name) hvariable,
    fieldAt_overlay_of_distinct hfile hdistinct hdefault, fieldAt_options hoptions h,
    fieldAt_variables bindings h]

/-- No section of the file gets lost. -/
theorem mem_keys_stacked (nodup : file.keys.Nodup) (h : name ∈ file.keys) :
    name ∈ (stacked file bindings options).keys := by
  rw [stacked, mem_keys_overlay (hasSection_assigned hasSection_empty _ name).nodup,
    mem_keys_overlay (hasSection_assigned hasSection_empty _ name).nodup, mem_keys_overlay nodup]
  exact Or.inr (Or.inr (Or.inl h))

/-- No field of the file gets lost. -/
theorem fieldAt_stacked_ne_none (hfile : HasSection file name)
    (h : fieldAt file name key ≠ none) :
    fieldAt (stacked file bindings options) name key ≠ none := by
  refine fieldAt_overlay_ne_none (hasSection_assigned hasSection_empty _ name) (Or.inr ?_)
  refine fieldAt_overlay_ne_none (hasSection_assigned hasSection_empty _ name) (Or.inr ?_)
  exact fieldAt_overlay_ne_none hfile (Or.inl h)

/-- **Each field has the value of the highest layer that sets it.**  Let the sections of the
settings file be tables, and let the variables and the options be of the right form.  Then there are
settings of all layers; each of their fields has the value of its option, or else that of its
variable, or else that in the file, or else its default; and what the file holds beyond the schema
is in them and is in the report of the check, if there is one: there is none if and only if the
settings state a version with too many digits to be named. -/
theorem load_precedence (hfile : fileLayer path isRequired contents = .ok file)
    (hsections : ∀ name rules v, (name, rules) ∈ schema → file.get? name = some v →
      ∃ fields, v = .table fields)
    (hbindings : Coerces bindings) (hoptions : WellFormed options) :
    ∃ config, merged path isRequired contents bindings options = .ok config
      ∧ (∀ environment, load environment path isRequired contents bindings options
          = finished environment path.parent config)
      ∧ (∀ name key rule, IsField name key rule →
          fieldAt config name key
            = (optionValue? options name key).or ((variableValue? bindings name key rule).or
                ((fieldAt file name key).or (fieldAt defaults name key))))
      ∧ (∀ name ∈ file.keys, name ∉ Fields.keys schema →
          name ∈ config.keys
            ∧ ∀ issues, check (.table config) = .ok issues → ⟨name, .unknown⟩ ∈ issues)
      ∧ (∀ name rules key, (name, rules) ∈ schema → fieldAt file name key ≠ none →
          key ∉ Fields.keys rules → fieldAt config name key ≠ none
            ∧ ∀ issues, check (.table config) = .ok issues →
                ⟨name ++ "." ++ key, .unknown⟩ ∈ issues)
      ∧ ((∃ issues, check (.table config) = .ok issues) ↔ Nameable config) := by
  have hdistinct := distinct_fileLayer hfile
  have hsection (name : String) (rules : List (String × FieldRule))
      (hname : (name, rules) ∈ schema) : HasSection file name := by
    refine ⟨hdistinct.nodup, fun v hv => ?_⟩
    obtain ⟨fields, rfl⟩ := hsections name rules v hname hv
    exact ⟨fields, rfl, (hdistinct.get? hv).nodup⟩
  have hmerged := merged_eq hfile hbindings hoptions
  refine ⟨stacked file bindings options, hmerged, ?_, ?_, ?_, ?_, exists_check_eq_ok_iff⟩
  · intro environment
    rw [load_eq, hmerged]
    rfl
  · intro name key rule h
    obtain ⟨rules, hname, -⟩ := id h
    refine fieldAt_stacked (hsection name rules hname) (fun v hv => ?_) hoptions h
    obtain ⟨fields, hget, hkey⟩ := fieldAt_eq_some_iff.mp hv
    exact (hdistinct.get? hget).get? hkey
  · intro name hname h
    have hkept : name ∈ (stacked file bindings options).keys :=
      mem_keys_stacked hdistinct.nodup hname
    refine ⟨hkept, fun issues hissues => mem_check_of_mem_sectionsIssues hissues ?_⟩
    exact mem_sectionsIssues_of_unknown_section hkept h
  · intro name rules key hname hkey h
    have hkept : fieldAt (stacked file bindings options) name key ≠ none :=
      fieldAt_stacked_ne_none (hsection name rules hname) hkey
    refine ⟨hkept, fun issues hissues => mem_check_of_mem_sectionsIssues hissues ?_⟩
    exact mem_sectionsIssues_of_unknown_field hname hkept h

/-- A settings file with a path and an unknown section, a variable with the format, an option with
another path, and one without a value. -/
theorem load_precedence_four_layers :
    ∃ config issues,
      merged (Path.ofText "c.toml") true
        (.ok [91, 111, 117, 116, 112, 117, 116, 93, 10, 112, 97, 116, 104, 61, 39, 120, 39, 10, 91,
          101, 93, 10])
        [("CODENARC_OUTPUT_FORMAT", " yaml")] [("output.path", .text "y"), ("output.format", .null)]
        = .ok config
      ∧ fieldAt config "output" "path" = some (.text "y")
      ∧ fieldAt config "output" "format" = some (.text "yaml")
      ∧ fieldAt config "meta" "schema_version" = some (.int 1)
      ∧ check (.table config) = .ok issues
      ∧ ⟨"e", .unknown⟩ ∈ issues := by
  have hfile : fileLayer (Path.ofText "c.toml") true
      (.ok [91, 111, 117, 116, 112, 117, 116, 93, 10, 112, 97, 116, 104, 61, 39, 120, 39, 10, 91,
        101, 93, 10])
      = .ok [("output", .table [("path", .text "x")]), ("e", .table [])] := by
    refine @fileLayer_of_statements _ _ _
      ['[', 'o', 'u', 't', 'p', 'u', 't', ']', '\n', 'p', 'a', 't', 'h', '=', '\'', 'x', '\'',
       '\n', '[', 'e', ']', '\n']
      _ (by decide +kernel) (by decide) ?_
    rfl
  have hsections : ∀ name rules v, (name, rules) ∈ schema →
      Fields.get? name [("output", Value.table [("path", .text "x")]), ("e", .table [])] = some v →
        ∃ fields, v = .table fields := by
    intro name rules v _ hv
    simp only [Fields.get?] at hv
    split at hv
    · exact ⟨_, (Option.some.inj hv).symm⟩
    · split at hv
      · exact ⟨_, (Option.some.inj hv).symm⟩
      · cases hv
  have hbindings : Coerces [("CODENARC_OUTPUT_FORMAT", " yaml")] :=
    coerces_of_all (by decide +kernel)
  have hoptions : WellFormed [("output.path", .text "y"), ("output.format", .null)] := by
    constructor
    · decide
    · rw [List.forall_mem_cons, List.forall_mem_singleton]
      exact ⟨fun _ => ⟨("output", "path"), by decide⟩, fun h => absurd rfl h⟩
    · rw [List.forall_mem_cons, List.forall_mem_singleton]
      exact ⟨rfl, rfl⟩
  obtain ⟨config, hconfig, -, hfields, hunknown, -, hreport⟩ :=
    load_precedence hfile hsections hbindings hoptions
  have hversion : fieldAt config "meta" "schema_version" = some (.int 1) := by
    rw [hfields _ _ (.integer 1) (by decide)]
    rfl
  obtain ⟨issues, hissues⟩ : ∃ issues, check (.table config) = .ok issues := by
    refine hreport.mpr fun version hstated _ => ?_
    obtain rfl := Value.int.inj (Option.some.inj (hversion.symm.trans hstated))
    decide
  refine ⟨config, issues, hconfig, ?_, ?_, hversion, hissues, ?_⟩
  · rw [hfields _ _ .path (by decide)]
    rfl
  · have hname : variableName "output" "format" = "CODENARC_OUTPUT_FORMAT" := by decide +kernel
    rw [hfields _ _ (.choice (Format.named.map Prod.fst)) (by decide), variableValue?, hname]
    rfl
  · exact (hunknown _ (by decide) (by decide)).2 issues hissues

/-- **What is unknown may go unreported**: a settings file with an unknown section and an option
with a version of 4301 digits give settings that have this section, but no report. -/
theorem unknown_section_not_reported :
    ∃ config,
      merged (Path.ofText "c.toml") true (.ok [91, 101, 93, 10]) []
          [("meta.schema_version", .int (10 ^ maxIntegerDigits))]
        = .ok config
      ∧ "e" ∈ config.keys ∧ "e" ∉ Fields.keys schema
      ∧ check (.table config) = .error ⟨⟩ := by
  have hfile : fileLayer (Path.ofText "c.toml") true (.ok [91, 101, 93, 10])
      = .ok [("e", .table [])] := by
    refine @fileLayer_of_statements _ _ _ ['[', 'e', ']', '\n'] _ (by decide +kernel)
      (by decide) ?_
    rfl
  have hoptions : WellFormed [("meta.schema_version", .int (10 ^ maxIntegerDigits))] := by
    refine ⟨List.nodup_singleton _, ?_, ?_⟩
    · rw [List.forall_mem_singleton]
      exact fun _ => ⟨("meta", "schema_version"), by decide⟩
    · rw [List.forall_mem_singleton]
      rfl
  have hfield : IsField "meta" "schema_version" (.integer 1) := by decide
  have hmeta : HasSection [("e", .table [])] "meta" :=
    ⟨List.nodup_singleton _, fun _ h => by cases h⟩
  have hversion := @fieldAt_stacked [] _ _ _ _ _ hmeta (fun _ h => by cases h)
    hoptions hfield
  refine ⟨_, merged_eq hfile (fun _ _ _ _ _ _ h => by cases h) hoptions,
    mem_keys_stacked (List.nodup_singleton _) List.mem_cons_self, by decide, ?_⟩
  cases hcheck : check (.table (stacked [("e", .table [])] []
      [("meta.schema_version", .int (10 ^ maxIntegerDigits))])) with
  | error e => rfl
  | ok issues =>
    refine absurd ?_ (Decimal.not_short_ten_pow (Nat.le_refl maxIntegerDigits))
    exact exists_check_eq_ok_iff.mp ⟨issues, hcheck⟩ _ hversion (by decide +kernel)

end RuleCatalogue.Settings

/-! ## Failures that are not foreseen -/

namespace RuleCatalogue.Settings

/-- **Octets from which no settings are read without that being foreseen.** -/
inductive Unreadable (octets : Octets) : Prop
  | noText {e : DecodeError} (h : Encoding.utf8.decodeAll octets = .error e)
  | oversizedInteger {text : List Char} {digits : Nat}
      (htext : Encoding.utf8.decodeAll octets = .ok text)
      (h : Toml.parse (String.ofList text) = .error (.oversizedInteger digits))

variable {environment : Environment} {base path : Path} {isRequired : Bool}
  {contents : Except FileError Octets} {bindings : Fields String}
  {options config : Fields Value}

/-! ## The layers -/

/-- Making paths absolute leaves the version as it is. -/
theorem Placed.nameable_iff {placed : Fields Value}
    (h : Placed environment base pathFields config placed) : Nameable placed ↔ Nameable config := by
  rw [Nameable, Nameable, h.rest "meta" "schema_version" (by decide)]

end RuleCatalogue.Settings
