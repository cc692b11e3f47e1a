import Mathlib.Data.List.Sort
import RuleCatalogue.Proofs.Payload
import RuleCatalogue.Proofs.Toml.Document
import RuleCatalogue.Serialization

/-!
# Catalogues read back and written alike

What a catalogue is written as in JSON or TOML is read back as the catalogue as it is shown: the
same rules, sorted by name.  The formats share the argument: each text is read as a table that
answers as the payload does, and a payload is read by what it answers.

Catalogues that show the same rules are written as the same text, in every format
(`Catalogue.serialize_canonical`).  The order in which the rules were filed and the parameters
added leaves no trace, nor do blanks around a description.

A catalogue has one form in which it is shown (`Catalogue.asShown`), which two catalogues share
exactly if they show the same rules (`Catalogue.asShown_eq_iff`).  Every writer takes the entries in
the order of their names, and of each entry what it shows.

## Main definitions

* `Catalogue.ShowsSame` compares catalogues by what they show, in no order.
* `codePoints` are the codes by which texts are ordered.
* `Value.Before` orders tables by texts that they have.

## Design notes

The two tables differ in the order of their fields, and TOML writes no list of rules where there
are none; neither shows in the answers.
-/

/-! ## Catalogues read back from their texts -/

namespace RuleCatalogue

namespace Catalogue

theorem portable_toValue (c : Catalogue) : c.toValue.Portable := by
  refine .table _ (by simp [Fields.keys]) fun field hfield => ?_
  simp only [List.mem_cons, List.not_mem_nil, or_false] at hfield
  rcases hfield with rfl | rfl
  · exact .int _ (by decide)
  · refine .list _ fun v hv => ?_
    obtain ⟨e, -, rfl⟩ := List.mem_map.mp hv
    exact e.portable_toValue

variable {c : Catalogue}

/-- **JSON reads back a catalogue**, by `Json.parse_indentedText` and `Catalogue.ofFields_eq`. -/
theorem deserialize_json (h : c.Regular) :
    deserialize .json (c.serialize .json) = .ok c.asShown := by
  have hparse : Format.parse .json (c.serialize .json) = .ok c.toValue.withSortedNames :=
    Json.parse_indentedText c.portable_toValue
  have hversion : Fields.get? "version" (Value.sortNames [("version", .int payloadVersion),
      ("rules", .list (c.sortedEntries.map RuleEntry.toValue))]) = some (.int payloadVersion) := by
    rw [Value.get?_sortNames (by simp [Fields.keys])]
    rfl
  have hrules : Fields.list? "rules" (Value.sortNames [("version", .int payloadVersion),
      ("rules", .list (c.sortedEntries.map RuleEntry.toValue))])
        = some (c.sortedEntries.map fun e => e.toValue.withSortedNames) := by
    rw [Fields.list?, Value.get?_sortNames (by simp [Fields.keys])]
    simp [Fields.get?, Value.withSortedNames_list]
  have hread := ofFields_eq h hversion hrules fun e _ he => RuleEntry.exists_fields?_stored he
  rw [deserialize, hparse, toValue, Value.withSortedNames_table]
  show (ofFields _).mapError _ = _
  rw [hread]
  rfl

/-- **TOML reads back a catalogue**, by `Toml.parse_write` and `Catalogue.ofFields_eq`.  The bound
on digits does not enter, since the one integer of a payload is its version. -/
theorem deserialize_toml (h : c.Regular) :
    deserialize .toml (c.serialize .toml) = .ok c.asShown := by
  have hparse : Format.parse .toml (c.serialize .toml)
      = .ok (.table (Toml.Document.rulesRoot (c.sortedEntries.map Toml.ruleFields))) :=
    Toml.parse_ofCatalogue c
  have hversion : Fields.get? "version"
      (Toml.Document.rulesRoot (c.sortedEntries.map Toml.ruleFields))
        = some (.int payloadVersion) :=
    rfl
  have hrules : Fields.list? "rules"
      (Toml.Document.rulesRoot (c.sortedEntries.map Toml.ruleFields))
        = some (c.sortedEntries.map fun e => .table (Toml.ruleFields e)) := by
    cases hentries : c.sortedEntries with
    | nil => rfl
    | cons e rest =>
      simp [Toml.Document.rulesRoot, Fields.list?, Fields.get?]
  have hread := ofFields_eq h hversion hrules fun e _ he =>
    ⟨_, rfl, RuleEntry.ofFields_eq he rfl rfl rfl⟩
  rw [deserialize, hparse]
  show (ofFields (Toml.Document.rulesRoot (c.sortedEntries.map Toml.ruleFields))).mapError _ = _
  rw [hread]
  rfl

/-- **JSON and TOML output read back as the same rules**: exactly the names in sorted order, each
with the same description and the same parameters. -/
theorem deserialize_serialize {format : Format} (hformat : format = .json ∨ format = .toml)
    (h : c.Regular) :
    ∃ again, deserialize format (c.serialize format) = .ok again
      ∧ again.keys = c.keys.mergeSort (fun a b => decide (a ≤ b))
      ∧ ∀ name e, c.get? name = some e → ∃ e', again.get? name = some e' ∧ e'.name = name
          ∧ e'.description = e.description ∧ e'.parameters = e.parameters := by
  refine ⟨c.asShown, ?_, c.keys_asShown, fun name e hget => ⟨e.asShown, ?_, h.filed name e hget,
    e.description_asShown, rfl⟩⟩
  · rcases hformat with rfl | rfl
    · exact deserialize_json h
    · exact deserialize_toml h
  · rw [get?_asShown, hget, Option.map_some]

/-- Quotes, backslashes, line ends and control characters in TOML, and the names sorted. -/
theorem deserialize_serialize_escaped :
    let foo : RuleEntry := {
      name := "Foo", rawDescription := " a\"b\\c\n\x00\x7f\u2028 "
      parameters := ParameterSet.insert ∅ { key := "k\\", defaultValue := "\x1b]" } }
    let c : Catalogue := Table.insert (Table.insert ∅ "Foo" foo) "Bar" { name := "Bar" }
    c.Regular ∧ ∃ again, deserialize .toml (c.serialize .toml) = .ok again
      ∧ again.keys = ["Bar", "Foo"] ∧ ∃ e, again.get? "Foo" = some e ∧ e.name = "Foo"
        ∧ e.description = "a\"b\\c\n\x00\x7f" ∧ e.parameters = foo.parameters := by
  intro foo c
  have hparameters : ∀ p ∈ foo.parameters.toList, p.isBlank = false := by decide
  have hregular : c.Regular := regular_insert
    (regular_insert regular_empty (e := foo) ⟨by decide, by decide, hparameters⟩)
    (e := { name := "Bar" }) ⟨by decide, by decide, fun _ hp => nomatch hp⟩
  have hsorted : ["Foo", "Bar"].mergeSort (fun a b => decide (a ≤ b)) = ["Bar", "Foo"] := by
    have horder : ¬ "Foo" ≤ "Bar" := by decide
    simp [List.mergeSort, horder]
  obtain ⟨again, hread, hkeys, hentries⟩ := deserialize_serialize (Or.inr rfl) hregular
  obtain ⟨e, hget, hname, hdescription, hsame⟩ := hentries "Foo" foo rfl
  exact ⟨hregular, again, hread, hkeys.trans hsorted, e, hget, hname,
    hdescription.trans (by decide +kernel), hsame⟩

end Catalogue

end RuleCatalogue

/-! ## What is written depends on the rules alone -/

namespace RuleCatalogue

/-! ## The order of texts -/

/-- The codes of a text. -/
def codePoints (s : String) : List Nat :=
  s.toList.map Char.toNat

/-- **Texts are ordered by their codes.** The program compares texts code by code, and so does the
order of the library. -/
theorem codePoints_lt_iff {s t : String} : codePoints s < codePoints t ↔ s < t := by
  have hlists (first second : List Char) :
      first.map Char.toNat < second.map Char.toNat ↔ first < second := by
    induction first generalizing second with
    | nil => cases second <;> simp
    | cons c first ih =>
      cases second with
      | nil => simp
      | cons d second =>
        have hcodes : c.toNat < d.toNat ↔ c < d := Iff.rfl
        simp [List.cons_lt_cons_iff, ih, hcodes, Char.toNat_inj]
  exact hlists s.toList t.toList

theorem codePoints_inj {s t : String} : codePoints s = codePoints t ↔ s = t := by
  have hcodes : Function.Injective Char.toNat := fun _ _ h => Char.toNat_inj.mp h
  rw [codePoints, codePoints, List.map_inj_right hcodes, String.toList_inj]

namespace Value

/-- The texts that a table has at names, if it has them all. -/
def textsAt? (names : List String) (v : Value) : Option (List String) :=
  names.mapM fun name =>
    match v.fields?.bind (Fields.get? name) with
    | some (.text s) => some s
    | _ => none

/-- **A table stands before another** by the texts that both have at these names, of which the first
counts first. -/
def Before (names : List String) (v w : Value) : Prop :=
  ∃ s t, v.textsAt? names = some s ∧ w.textsAt? names = some t
    ∧ s.map codePoints < t.map codePoints

end Value

theorem Parameter.before_toValue {p q : Parameter} (h : p < q) :
    Value.Before ["key", "description", "default_value"] p.toValue q.toValue := by
  refine ⟨[p.key, p.description, p.defaultValue], [q.key, q.description, q.defaultValue],
    rfl, rfl, ?_⟩
  rw [lt_def] at h
  simpa [List.cons_lt_cons_iff, codePoints_lt_iff, codePoints_inj] using h

theorem RuleEntry.before_toValue {e e' : RuleEntry} (h : e.name < e'.name) :
    Value.Before ["name"] e.toValue e'.toValue := by
  refine ⟨[e.name], [e'.name], rfl, rfl, ?_⟩
  simpa [List.cons_lt_cons_iff, codePoints_lt_iff] using h

/-! ## Entries as they are written -/

namespace RuleEntry

@[simp] theorem toValue_asShown (e : RuleEntry) : e.asShown.toValue = e.toValue := by
  rw [toValue, description_asShown]
  rfl

@[simp] theorem tomlLines_asShown (e : RuleEntry) :
    Toml.ruleLines e.asShown = Toml.ruleLines e := by
  rw [Toml.ruleLines, description_asShown]
  rfl

@[simp] theorem yamlLines_asShown (e : RuleEntry) :
    Yaml.ruleLines e.asShown = Yaml.ruleLines e := by
  rw [Yaml.ruleLines, description_asShown]
  rfl

end RuleEntry

/-! ## Catalogues that show the same -/

namespace Catalogue

/-- **Two catalogues show the same rules**: under the same names, and under each name the same name,
the same description without the blanks around it, and the same parameters. -/
structure ShowsSame (c d : Catalogue) : Prop where
  names : ∀ name, name ∈ c.keys ↔ name ∈ d.keys
  entries : ∀ name e e', c.get? name = some e → d.get? name = some e' →
    e.name = e'.name ∧ Text.trimmed e.rawDescription = Text.trimmed e'.rawDescription
      ∧ ∀ p, p ∈ e.parameters ↔ p ∈ e'.parameters

variable {c d : Catalogue}

theorem pairwise_keys_asShown (c : Catalogue) : c.asShown.keys.Pairwise (· < ·) := by
  rw [keys_asShown, Table.keys, ← Fields.keys_sorted]
  exact Fields.pairwise_keys_sorted c.nodup

theorem mem_keys_asShown {name : String} : name ∈ c.asShown.keys ↔ name ∈ c.keys := by
  rw [keys_asShown, List.mem_mergeSort]

/-- **The form in which a catalogue is shown tells what it shows**, and nothing else: `ShowsSame`
says so in terms of names, descriptions and parameters. -/
theorem asShown_eq_iff : c.asShown = d.asShown ↔ c.ShowsSame d := by
  constructor
  · intro h
    refine ⟨fun name => ?_, fun name e e' hget hget' => ?_⟩
    · have hkeys : c.asShown.keys = d.asShown.keys := congrArg Table.keys h
      rw [← mem_keys_asShown, hkeys, mem_keys_asShown]
    · have hentry : (c.get? name).map RuleEntry.asShown = (d.get? name).map RuleEntry.asShown := by
        rw [← get?_asShown, h, get?_asShown]
      rw [hget, hget', Option.map_some, Option.map_some, Option.some.injEq] at hentry
      obtain ⟨hname, hparameters, hdescription⟩ := RuleEntry.ext_iff.mp hentry
      refine ⟨hname, hdescription, fun p => ?_⟩
      show p ∈ e.asShown.parameters ↔ p ∈ e'.asShown.parameters
      rw [hparameters]
  · intro h
    refine Table.ext_get? ?_ fun name => ?_
    · -- Increasing lists with the same members are equal, so the order of filing is lost.
      refine (pairwise_keys_asShown c).eq_of_mem_iff (pairwise_keys_asShown d) fun name => ?_
      rw [mem_keys_asShown, mem_keys_asShown, h.names name]
    · rw [get?_asShown, get?_asShown]
      by_cases hname : name ∈ c.keys
      · have hget := get?_of_mem_keys hname
        have hget' := get?_of_mem_keys ((h.names name).mp hname)
        obtain ⟨hsame, hdescription, hparameters⟩ := h.entries name _ _ hget hget'
        rw [hget, hget', Option.map_some, Option.map_some, Option.some.injEq]
        exact RuleEntry.ext hsame (ParameterSet.ext_mem hparameters) hdescription
      · rw [Table.get?_eq_none_iff.mpr hname,
          Table.get?_eq_none_iff.mpr fun h' => hname ((h.names name).mpr h')]

/-- What is written of every entry, in their order, is the same for catalogues that show the
same. -/
theorem map_sortedEntries {α : Type} {write : RuleEntry → α}
    (hwrite : ∀ e, write e.asShown = write e) (h : c.asShown = d.asShown) :
    c.sortedEntries.map write = d.sortedEntries.map write := by
  have hshown (c : Catalogue) : c.sortedEntries.map write = c.asShown.values.map write := by
    rw [sortedEntries, Table.values, asShown, List.map_map, List.map_map, List.map_map]
    exact List.map_congr_left fun field _ => (hwrite field.2).symm
  rw [hshown c, hshown d, h]

theorem serialize_eq_of_asShown (h : c.asShown = d.asShown) (format : Format) :
    c.serialize format = d.serialize format := by
  cases format with
  | json => rw [serialize, toValue, map_sortedEntries RuleEntry.toValue_asShown h]; rfl
  | toml =>
    have hlines :
        c.sortedEntries.flatMap Toml.ruleLines = d.sortedEntries.flatMap Toml.ruleLines := by
      rw [List.flatMap_def, List.flatMap_def, map_sortedEntries RuleEntry.tomlLines_asShown h]
    simp only [serialize, Toml.ofCatalogue, hlines]
  | yaml =>
    simp only [serialize, Yaml.ofCatalogue, map_sortedEntries RuleEntry.yamlLines_asShown h]

/-- **What is written is canonical.**  Catalogues that show the same rules are written as the same
text in every format.  A payload lists the rules in increasing order of their names, each with its
parameters in increasing order of key, description and default value, by the codes of the
characters. -/
theorem serialize_canonical :
    (∀ c d : Catalogue, c.ShowsSame d → ∀ format, c.serialize format = d.serialize format)
    ∧ ∀ c : Catalogue, ∃ (names : List String) (rules : List Value),
        names.Perm c.keys ∧ names.Pairwise (fun s t => codePoints s < codePoints t)
        ∧ rules = names.map (fun name => (c.entryOrNew name).toValue)
        ∧ c.toValue = .table [("version", .int payloadVersion), ("rules", .list rules)]
        ∧ (c.Filed → rules.Pairwise (Value.Before ["name"]))
        ∧ ∀ rule ∈ rules, ∃ parameters,
            rule.fields?.bind (Fields.list? "parameters") = some parameters
            ∧ parameters.Pairwise (Value.Before ["key", "description", "default_value"]) := by
  refine ⟨fun c d h format => serialize_eq_of_asShown (asShown_eq_iff.mpr h) format, fun c => ?_⟩
  have hincreasing := pairwise_keys_asShown c
  refine ⟨c.asShown.keys, _, ?_, ?_, rfl, ?_, fun hfiled => ?_, fun rule hrule => ?_⟩
  · rw [keys_asShown]
    exact List.mergeSort_perm _ _
  · exact hincreasing.imp codePoints_lt_iff.mpr
  · rw [toValue, sortedEntries_eq, List.map_map]
    rfl
  · refine List.pairwise_map.mpr (hincreasing.imp fun hlt => RuleEntry.before_toValue ?_)
    rwa [name_entryOrNew hfiled, name_entryOrNew hfiled]
  · obtain ⟨name, -, rfl⟩ := List.mem_map.mp hrule
    refine ⟨_, rfl, ?_⟩
    exact List.pairwise_map.mpr
      ((c.entryOrNew name).parameters.increasing.imp Parameter.before_toValue)

/-- Rules in another order, parameters that differ in their default values alone in another order,
and blanks around a description. -/
theorem serialize_canonical_reordered :
    let one : Parameter := { key := "k", defaultValue := "1" }
    let two : Parameter := { key := "k", defaultValue := "2" }
    let foo : RuleEntry := {
      name := "Foo", rawDescription := "Text"
      parameters := (ParameterSet.insert ∅ one).insert two }
    let foo' : RuleEntry := {
      name := "Foo", rawDescription := "\n Text "
      parameters := (ParameterSet.insert ∅ two).insert one }
    let c : Catalogue := Table.insert (Table.insert ∅ "Foo" foo) "Bar" { name := "Bar" }
    let d : Catalogue := Table.insert (Table.insert ∅ "Bar" { name := "Bar" }) "Foo" foo'
    c.ShowsSame d ∧ (∀ format, c.serialize format = d.serialize format)
      ∧ c.Filed ∧ ∃ rules : List Value,
        c.toValue = .table [("version", .int payloadVersion), ("rules", .list rules)]
          ∧ rules.length = 2 ∧ rules.Pairwise (Value.Before ["name"]) := by
  intro one two foo foo' c d
  have hsame : c.ShowsSame d := by
    refine ⟨fun name => ?_, fun name e e' hget hget' => ?_⟩
    · show name ∈ ["Foo", "Bar"] ↔ name ∈ ["Bar", "Foo"]
      simp [or_comm]
    · have hname : name ∈ ["Foo", "Bar"] := Fields.mem_keys_of_get? hget
      simp only [List.mem_cons, List.not_mem_nil, or_false] at hname
      rcases hname with rfl | rfl
      · obtain rfl : foo = e := Option.some.inj hget
        obtain rfl : foo' = e' := Option.some.inj hget'
        refine ⟨rfl, by decide, fun p => ?_⟩
        simp [foo, foo', or_comm]
      · obtain rfl : { name := "Bar" } = e := Option.some.inj hget
        obtain rfl : { name := "Bar" } = e' := Option.some.inj hget'
        exact ⟨rfl, rfl, fun p => Iff.rfl⟩
  have hfiled : c.Filed := filed_insert (filed_insert regular_empty.filed foo) { name := "Bar" }
  obtain ⟨hwritten, hlisted⟩ := serialize_canonical
  obtain ⟨names, rules, hnames, -, hrules, hpayload, hbefore, -⟩ := hlisted c
  refine ⟨hsame, hwritten c d hsame, hfiled, rules, hpayload, ?_, hbefore hfiled⟩
  rw [hrules, List.length_map, hnames.length_eq]
  rfl

end Catalogue

end RuleCatalogue
