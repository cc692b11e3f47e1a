import RuleCatalogue.Proofs.Merge
import RuleCatalogue.Proofs.Serialization
import RuleCatalogue.Proofs.Session.Boundary
import RuleCatalogue.Proofs.Yaml.Value

/-!
# Catalogues read back from YAML

What YAML gives back of a catalogue is made of what its texts read as (`Yaml.reread`): the rules are
filed in their order, each as `RuleEntry.reread` says.  All texts but those with the next-line
character between apostrophes read as themselves, and these never do.

## Main results

* `Catalogue.exists_sameRules_yaml_iff`: which catalogues are read back.
* `Catalogue.description_yaml_nextLine`: a catalogue that is not.
* `Catalogue.exists_sameRules_ofFiles`: the rules of files, in all three formats.

## Design notes

What was read once is read back (`Yaml.reread_reread`).  So a parameter that was lost cannot be made
up for by another one that reads like it.
-/

namespace RuleCatalogue

/-! ## Texts -/

namespace Yaml

theorem next_of_reread_ne {text : String} (h : reread text ≠ text) :
    '\x85' ∈ text.toList ∧ '\x85' ∉ (reread text).toList := by
  have hsingle : styleOf text.toList = .single ∧ '\x85' ∈ text.toList := by
    rw [Ne, reread_eq_self_iff, Classical.not_imp, not_not] at h
    exact h
  refine ⟨hsingle.2, ?_⟩
  rw [reread, if_pos hsingle.1, String.toList_ofList]
  exact not_mem_refolded false text.toList

/-- What was read once is read back. -/
theorem reread_reread (text : String) : reread (reread text) = reread text := by
  by_cases h : reread text = text
  · rw [h, h]
  · exact reread_eq_self_iff.mpr fun _ => (next_of_reread_ne h).2

/-- A text that is read back but for blanks at its ends is read back. -/
theorem reread_of_trimmed {text : String} (h : Text.trimmed (reread text) = text) :
    reread text = text := by
  refine Decidable.byContradiction fun hne => ?_
  obtain ⟨hmem, hlost⟩ := next_of_reread_ne hne
  rw [← h, Text.trimmed, String.toList_ofList] at hmem
  exact hlost (Text.mem_of_mem_trim hmem)

end Yaml

namespace Parameter

/-- The texts of a parameter. -/
def texts (p : Parameter) : List String :=
  [p.key, p.description, p.defaultValue]

/-- A parameter as YAML reads it. -/
def reread (p : Parameter) : Parameter where
  key := Yaml.reread p.key
  description := Yaml.reread p.description
  defaultValue := Yaml.reread p.defaultValue

theorem reread_eq_self_iff {p : Parameter} :
    p.reread = p ↔ ∀ text ∈ p.texts, Yaml.reread text = text := by
  obtain ⟨key, description, defaultValue⟩ := p
  simp [reread, texts]

theorem reread_reread (p : Parameter) : p.reread.reread = p.reread := by
  simp [reread, Yaml.reread_reread]

theorem ofFields_parameterFields (p : Parameter) :
    ofFields (Yaml.parameterFields p) = .ok p.reread :=
  ofFields_eq rfl rfl rfl

end Parameter

/-! ## Rules -/

namespace RuleEntry

/-- The texts of a rule as it is shown. -/
def texts (e : RuleEntry) : List String :=
  e.name :: e.description :: e.parameters.toList.flatMap Parameter.texts

/-- A rule as YAML reads it. -/
def reread (e : RuleEntry) : RuleEntry :=
  addParameters { name := Text.trimmed (Yaml.reread e.name)
                  rawDescription := Yaml.reread e.description }
    (e.parameters.toList.map Parameter.reread)

theorem parametersOf_parameterFields (index : Nat) (ps : List Parameter) :
    parametersOf index (ps.map fun p => .table (Yaml.parameterFields p))
      = .ok (ps.map Parameter.reread) :=
  parametersOf_map (fun p => ⟨_, rfl, p.ofFields_parameterFields⟩) index ps

theorem ofFields_ruleFields (e : RuleEntry) :
    ofFields (Yaml.ruleFields e)
      = if Text.isBlankText (Yaml.reread e.name) then .error .nameMissing else .ok e.reread := by
  have hname : Fields.get? "name" (Yaml.ruleFields e) = some (.text (Yaml.reread e.name)) := rfl
  have hdescription : Fields.get? "description" (Yaml.ruleFields e)
      = some (.text (Yaml.reread e.description)) := rfl
  have hparameters : Fields.get? "parameters" (Yaml.ruleFields e)
      = some (.list (e.parameters.toList.map fun p => .table (Yaml.parameterFields p))) := rfl
  simp only [ofFields, Fields.text?, Fields.list?, hname, hdescription, hparameters]
  split
  · rfl
  · simp only [Option.elim, bind, Except.bind, parametersOf_parameterFields]
    rfl

/-- A rule all of whose texts are read back is read as it is shown. -/
theorem ofFields_of_texts {e : RuleEntry} (h : e.Regular)
    (htexts : ∀ text ∈ e.texts, Yaml.reread text = text) :
    ofFields (Yaml.ruleFields e) = .ok e.asShown := by
  have hname : Yaml.reread e.name = e.name := htexts e.name (by simp [texts])
  have hdescription : Yaml.reread e.description = e.description :=
    htexts e.description (by simp [texts])
  have hparameters : e.parameters.toList.map Parameter.reread = e.parameters.toList := by
    refine (List.map_congr_left fun p hp => ?_).trans (List.map_id _)
    refine Parameter.reread_eq_self_iff.mpr fun text htext => htexts text ?_
    simp only [texts, List.mem_cons, List.mem_flatMap]
    exact Or.inr (Or.inr ⟨p, hp, htext⟩)
  rw [ofFields_ruleFields, reread, hname, hdescription, hparameters, h.isBlankText_name,
    h.trimmed_name, h.addParameters_toList]
  rfl

/-- **What is read back of a rule has lost nothing** only if all its texts are read back. -/
theorem texts_of_reread {e : RuleEntry} (hname : e.reread.name = e.name)
    (hdescription : e.reread.description = e.description)
    (hparameters : e.reread.parameters = e.parameters) :
    ∀ text ∈ e.texts, Yaml.reread text = text := by
  intro text htext
  simp only [texts, List.mem_cons, List.mem_flatMap] at htext
  rcases htext with rfl | rfl | ⟨p, hp, htext⟩
  · have hread : e.reread.name = Text.trimmed (Yaml.reread e.name) := name_addParameters _ _
    exact Yaml.reread_of_trimmed (hread.symm.trans hname)
  · have hread : e.reread.description = Text.trimmed (Yaml.reread e.description) := by
      rw [description, reread, rawDescription_addParameters]
    exact Yaml.reread_of_trimmed (hread.symm.trans hdescription)
  · -- A parameter that was read is read back, and all those of the rule were.
    have hmem : p ∈ e.reread.parameters := by
      rw [hparameters]
      exact hp
    rw [reread, mem_addParameters] at hmem
    rcases hmem with hnone | ⟨hread, -⟩
    · exact absurd hnone (ParameterSet.not_mem_empty p)
    · obtain ⟨q, -, rfl⟩ := List.mem_map.mp hread
      exact Parameter.reread_eq_self_iff.mp q.reread_reread text htext

end RuleEntry

/-! ## Catalogues -/

namespace Catalogue

/-- **The same rules**, sorted by name. -/
structure SameRules (c again : Catalogue) : Prop where
  keys : again.keys = c.keys.mergeSort fun a b => decide (a ≤ b)
  entries : ∀ name e, c.get? name = some e → ∃ e', again.get? name = some e' ∧ e'.name = name
    ∧ e'.description = e.description ∧ e'.parameters = e.parameters

theorem sameRules_asShown {c : Catalogue} (h : c.Regular) : c.SameRules c.asShown where
  keys := c.keys_asShown
  entries name e hget := by
    refine ⟨e.asShown, ?_, h.filed name e hget, e.description_asShown, rfl⟩
    rw [get?_asShown, hget, Option.map_some]

/-- Rules that can be filed are filed as they are read, in their order. -/
theorem fields_of_addRules {entries : List RuleEntry} {c filed : Catalogue} {index : Nat}
    (h : addRules c index (entries.map fun e => .table (Yaml.ruleFields e)) = .ok filed) :
    filed.fields = c.fields ++ entries.map fun e => (e.reread.name, e.reread) := by
  obtain ⟨hitems, -, hfields⟩ := addRules_eq_ok_iff.mp h
  rw [hfields, List.map_map]
  refine congrArg (c.fields ++ ·) (List.map_congr_left fun e he => ?_)
  have hwell : RuleEntry.WellFormed (Yaml.ruleFields e) :=
    (Value.isTable_iff rfl).mp (hitems _ (List.mem_map_of_mem he))
  have hread := RuleEntry.ofFields_eq_ok_iff.mpr ⟨hwell, rfl⟩
  rw [RuleEntry.ofFields_ruleFields] at hread
  split at hread
  · cases hread
  · rw [Except.ok.injEq] at hread
    show (RuleEntry.givenName (Yaml.ruleFields e), RuleEntry.given (Yaml.ruleFields e)) = _
    rw [← RuleEntry.name_given, ← hread]

variable {c : Catalogue}

/-- What YAML gives of a catalogue is read from the fields that it writes. -/
theorem deserialize_yaml_eq (c : Catalogue) :
    deserialize .yaml (c.serialize .yaml)
      = (ofFields (Yaml.catalogueFields c)).mapError .unsuitable := by
  have hparse : Format.parse .yaml (c.serialize .yaml) = .ok (.table (Yaml.catalogueFields c)) :=
    Yaml.parse_ofCatalogue c
  rw [deserialize, hparse]
  rfl

theorem ofFields_catalogueFields (c : Catalogue) :
    ofFields (Yaml.catalogueFields c)
      = addRules ∅ 0 (c.sortedEntries.map fun e => .table (Yaml.ruleFields e)) :=
  rfl

/-- **YAML reads back a catalogue** whose texts are read back. -/
theorem deserialize_yaml (h : c.Regular)
    (htexts : ∀ name e, c.get? name = some e → ∀ text ∈ e.texts, Yaml.reread text = text) :
    deserialize .yaml (c.serialize .yaml) = .ok c.asShown := by
  have hrules : Fields.list? "rules" (Yaml.catalogueFields c)
      = some (c.sortedEntries.map fun e => .table (Yaml.ruleFields e)) := rfl
  have hread := ofFields_eq h rfl hrules fun e he hregular =>
    ⟨_, rfl, RuleEntry.ofFields_of_texts hregular
      (htexts _ e (get?_of_mem_sortedEntries h.filed he))⟩
  rw [deserialize_yaml_eq, hread]
  rfl

theorem texts_of_deserialize_yaml (h : c.Regular) {again : Catalogue}
    (hread : deserialize .yaml (c.serialize .yaml) = .ok again) (hsame : c.SameRules again) :
    ∀ name e, c.get? name = some e → ∀ text ∈ e.texts, Yaml.reread text = text := by
  have hrules : addRules ∅ 0 (c.sortedEntries.map fun e => .table (Yaml.ruleFields e))
      = .ok again := by
    rw [deserialize_yaml_eq, ofFields_catalogueFields] at hread
    cases hrules : addRules ∅ 0 (c.sortedEntries.map fun e => .table (Yaml.ruleFields e)) with
    | error e => rw [hrules] at hread; cases hread
    | ok found => rw [hrules] at hread; cases hread; rfl
  have hfields : again.fields = c.sortedEntries.map fun e => (e.reread.name, e.reread) :=
    fields_of_addRules hrules
  have hnames : ∀ e ∈ c.sortedEntries, e.reread.name = e.name := by
    have hkeys : (c.sortedEntries.map fun e => e.reread.name)
        = c.sortedEntries.map RuleEntry.name := by
      rw [map_name_sortedEntries h.filed, ← hsame.keys, Table.keys, hfields, Fields.keys,
        List.map_map]
      rfl
    exact List.map_inj_left.mp hkeys
  intro name e hget
  have hmem := mem_sortedEntries hget
  have hfound : again.get? name = some e.reread := by
    refine (Fields.get?_eq_some_iff again.nodup).mpr ?_
    rw [hfields, ← h.filed name e hget, ← hnames e hmem]
    exact List.mem_map_of_mem hmem
  obtain ⟨e', hget', hname, hdescription, hparameters⟩ := hsame.entries name e hget
  rw [hfound] at hget'
  cases hget'
  exact RuleEntry.texts_of_reread (hnames e hmem) hdescription hparameters

/-- **YAML output reads back as the same rules** if and only if no text that stands between
apostrophes holds the next-line character. -/
theorem exists_sameRules_yaml_iff (h : c.Regular) :
    (∃ again, deserialize .yaml (c.serialize .yaml) = .ok again ∧ c.SameRules again)
      ↔ ∀ name e, c.get? name = some e → ∀ text ∈ e.texts,
          Yaml.styleOf text.toList = .single → '\x85' ∉ text.toList := by
  constructor
  · rintro ⟨again, hread, hsame⟩ name e hget text htext
    exact Yaml.reread_eq_self_iff.mp
      (texts_of_deserialize_yaml h hread hsame name e hget text htext)
  · intro hkept
    refine ⟨c.asShown, deserialize_yaml h fun name e hget text htext => ?_, sameRules_asShown h⟩
    exact Yaml.reread_eq_self_iff.mpr (hkept name e hget text htext)

/-- A text with a control character stands between double quotes, where the next-line character is
escaped. -/
theorem exists_sameRules_yaml_escaped :
    let foo : RuleEntry := {
      name := "Foo", rawDescription := " a\x85b\x07 # c: "
      parameters := ParameterSet.insert ∅ { key := "it's", defaultValue := "\n\u2028 yes" } }
    let c : Catalogue := Table.insert ∅ "Foo" foo
    c.Regular ∧ ∃ again, deserialize .yaml (c.serialize .yaml) = .ok again ∧ c.SameRules again := by
  intro foo c
  have hparameters : ∀ p ∈ foo.parameters.toList, p.isBlank = false := by decide
  have hregular : c.Regular :=
    regular_insert regular_empty (e := foo) ⟨by decide, by decide, hparameters⟩
  have htexts : ∀ text ∈ foo.texts, Yaml.fitsSingleQuotes text.toList → '\x85' ∉ text.toList := by
    decide +kernel
  refine ⟨hregular, (exists_sameRules_yaml_iff hregular).mpr
    fun name e hget text htext hsingle => ?_⟩
  rw [Table.get?_insert] at hget
  split at hget
  · cases hget
    exact htexts text htext (Yaml.of_styleOf_single hsingle)
  · cases hget

/-- **The next-line character inside of a line is lost**: it is written between apostrophes, where
it reads as a space. -/
theorem description_yaml_nextLine :
    let foo : RuleEntry := { name := "Foo", rawDescription := "a\x85b" }
    let c : Catalogue := Table.insert ∅ "Foo" foo
    c.Regular ∧ foo.description = "a\x85b" ∧ ∃ again,
      deserialize .yaml (c.serialize .yaml) = .ok again ∧ ∃ e, again.get? "Foo" = some e
        ∧ e.description = "a b" := by
  intro foo c
  have hregular : c.Regular :=
    regular_insert regular_empty (e := foo) ⟨by decide, by decide, fun _ hp => nomatch hp⟩
  have hdescription : foo.description = "a\x85b" := by decide +kernel
  have hname : Yaml.reread "Foo" = "Foo" := Yaml.reread_eq_self_iff.mpr fun _ => by decide
  have hstyle : Yaml.styleOf foo.description.toList = .single := by
    have hsingle : Yaml.fitsSingleQuotes foo.description.toList
        ∧ foo.description.toList.any Yaml.isNewline := by decide +kernel
    simp [Yaml.styleOf, Yaml.fitsPlain, hsingle]
  have hread : Yaml.reread foo.description = "a b" := by
    rw [Yaml.reread, if_pos hstyle, hdescription]
    decide +kernel
  have hrule : RuleEntry.ofFields (Yaml.ruleFields foo) = .ok foo.reread := by
    rw [RuleEntry.ofFields_ruleFields, hname]
    rfl
  have hsorted : c.sortedEntries = [foo] := by
    show (Fields.sorted [("Foo", foo)]).map Prod.snd = _
    rw [Fields.sorted, List.mergeSort_singleton]
    rfl
  have hfiled : ofFields (Yaml.catalogueFields c)
      = .ok (Table.insert ∅ foo.reread.name foo.reread) := by
    rw [ofFields_catalogueFields, hsorted, List.map_singleton, addRules]
    simp only [Value.fields?, hrule, bind, Except.bind]
    rfl
  have hfound : (Table.insert (∅ : Catalogue) foo.reread.name foo.reread).get? "Foo"
      = some foo.reread := by
    have hkept : foo.reread.name = "Foo" := by
      rw [RuleEntry.reread, RuleEntry.name_addParameters, hname]
      decide +kernel
    rw [hkept, Table.get?_insert_self]
  refine ⟨hregular, hdescription, _, by rw [deserialize_yaml_eq, hfiled]; rfl, _, hfound, ?_⟩
  rw [RuleEntry.description, RuleEntry.reread, RuleEntry.rawDescription_addParameters, hread]
  decide +kernel

/-! ### Rules that come from files

Reading back asks for a regular catalogue.  Every catalogue that is made of files is one: the rules
of a file are opened by titles, and merging keeps names and drops what is blank. -/

/-- The rules of several files, merged. -/
def ofFiles (files : List (List String)) : Catalogue :=
  (mergeAll (files.map ofLines)).catalogue

theorem regular_ofFiles (files : List (List String)) : (ofFiles files).Regular :=
  regular_mergeAll (List.forall_mem_map.mpr fun lines _ => regular_ofLines lines)

/-- **What files give is read back from what it is written as**: from JSON and TOML always, and from
YAML if no text that stands between apostrophes holds the next-line character. -/
theorem exists_sameRules_ofFiles (files : List (List String)) (format : Format)
    (hyaml : format = .yaml → ∀ name e, (ofFiles files).get? name = some e → ∀ text ∈ e.texts,
      Yaml.styleOf text.toList = .single → '\x85' ∉ text.toList) :
    ∃ again, deserialize format ((ofFiles files).serialize format) = .ok again
      ∧ (ofFiles files).SameRules again := by
  have hregular := regular_ofFiles files
  refine ⟨(ofFiles files).asShown, ?_, sameRules_asShown hregular⟩
  cases format with
  | json => exact deserialize_json hregular
  | toml => exact deserialize_toml hregular
  | yaml =>
    refine deserialize_yaml hregular fun name e hget text htext => ?_
    exact Yaml.reread_eq_self_iff.mpr (hyaml rfl name e hget text htext)

end Catalogue

end RuleCatalogue
