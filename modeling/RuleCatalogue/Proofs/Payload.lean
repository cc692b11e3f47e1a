import RuleCatalogue.Payload
import RuleCatalogue.Proofs.Catalogue
import RuleCatalogue.Proofs.Fallible
import RuleCatalogue.Proofs.Table
import RuleCatalogue.Proofs.Value

/-!
# Payloads

A payload is read if and only if it is well-formed (`Catalogue.ofFields_eq_ok_iff`), and what is
read is what it gives: the rules in their order under their trimmed names, with their descriptions
as they are, and of their parameters those that are not blank.

Well-formedness is a matter of the whole value and names no order in which the parts are looked at.
The readers check part after part while they build, so each has one lemma that says both at once:
when it succeeds, and with what.

A catalogue is read from any table that answers the names of a payload as `Catalogue.toValue`
does; in which order the fields of a table stand does not matter.  What is read is the catalogue as
it is shown (`Catalogue.asShown`): its rules sorted by name, their descriptions trimmed.

## Main definitions

* `Value.EqualsOne` lists the values that count as the number one.
* `Fields.MayHaveText` and `Fields.MayHaveList` are what is asked of a part that may be missing.
* `Parameter.WellFormed`, `RuleEntry.WellFormed` and `Catalogue.WellFormed` are what is asked of the
  tables.
-/

/-! ## Which payloads are read -/

namespace RuleCatalogue

/-! ## Parts of tables -/

/-- **A value that is equal to the number one.** -/
inductive Value.EqualsOne : Value → Prop
  | int : EqualsOne (.int 1)
  | bool : EqualsOne (.bool true)
  | float {x : Float} (h : x == Float.ofInt 1) : EqualsOne (.float x)

/-- The version of a payload may be the number one, the truth value that equals it, or a fraction
that does: the comparison is by value and not by type. -/
theorem Value.equalsInt_version_iff {v : Value} : v.equalsInt payloadVersion ↔ v.EqualsOne := by
  constructor
  · intro h
    cases v with
    | int n =>
      obtain rfl : n = 1 := by simpa [equalsInt, payloadVersion] using h
      exact .int
    | bool b =>
      cases b with
      | true => exact .bool
      | false => simp [equalsInt, payloadVersion] at h
    | float x => exact .float h
    | _ => simp [equalsInt] at h
  · intro h
    cases h with
    | int => rfl
    | bool => rfl
    | float h => exact h

/-- **A value is a table** of which something holds. -/
def Value.IsTable (holds : Fields Value → Prop) (v : Value) : Prop :=
  ∃ fields, v.fields? = some fields ∧ holds fields

/-- The fields of a value, if it is a table. -/
def Value.givenFields (v : Value) : Fields Value :=
  v.fields?.getD []

/-- Once the fields of a value are known, being a table is about them. -/
theorem Value.isTable_iff {holds : Fields Value → Prop} {v : Value} {fields : Fields Value}
    (h : v.fields? = some fields) : v.IsTable holds ↔ holds fields := by
  simp [IsTable, h]

/-- The fields of a value that is a table. -/
theorem Value.givenFields_eq {v : Value} {fields : Fields Value} (h : v.fields? = some fields) :
    v.givenFields = fields := by
  rw [givenFields, h, Option.getD_some]

namespace Fields

variable {key : String} {fields : Fields Value}

/-- What a name has is a text, if it has anything. -/
def MayHaveText (key : String) (fields : Fields Value) : Prop :=
  ∀ v, get? key fields = some v → ∃ s, v = .text s

/-- What a name has is a list, if it has anything. -/
def MayHaveList (key : String) (fields : Fields Value) : Prop :=
  ∀ v, get? key fields = some v → ∃ items, v = .list items

/-- The text that is given at a name, empty where none is. -/
def givenText (key : String) (fields : Fields Value) : String :=
  (text? key fields).getD ""

/-- The items that are given at a name. -/
def givenItems (key : String) (fields : Fields Value) : List Value :=
  (list? key fields).getD []

/-- **A text is read** exactly when the name has a text or nothing; a missing one reads as the empty
text, which is what `givenText` gives for both. -/
theorem text?_eq_some_iff {s : String} :
    text? key fields = some s ↔ MayHaveText key fields ∧ s = givenText key fields := by
  unfold givenText MayHaveText
  cases hget : get? key fields with
  | none => simp [text?, hget, eq_comm]
  | some v => cases v <;> simp [text?, hget, eq_comm]

/-- **A list is read** exactly when the name has a list or nothing; a missing one reads as the empty
list. -/
theorem list?_eq_some_iff {items : List Value} :
    list? key fields = some items ↔ MayHaveList key fields ∧ items = givenItems key fields := by
  unfold givenItems MayHaveList
  cases hget : get? key fields with
  | none => simp [list?, hget, eq_comm]
  | some v => cases v <;> simp [list?, hget, eq_comm]

end Fields

/-! ## Parameters -/

namespace Parameter

/-- The names of the texts of a parameter. -/
def textNames : List String :=
  ["key", "description", "default_value"]

/-- **A table gives a parameter**: each of its texts is a text or missing. -/
def WellFormed (fields : Fields Value) : Prop :=
  ∀ key ∈ textNames, Fields.MayHaveText key fields

/-- The parameter that a table gives. -/
def given (fields : Fields Value) : Parameter where
  key := fields.givenText "key"
  description := fields.givenText "description"
  defaultValue := fields.givenText "default_value"

/-- A parameter is read if and only if its texts are texts, and it is the one that the table gives.
-/
theorem ofFields_eq_ok_iff {fields : Fields Value} {p : Parameter} :
    ofFields fields = .ok p ↔ WellFormed fields ∧ p = given fields := by
  simp only [ofFields, Fallible.bind_eq_ok_iff, Fallible.elim_eq_ok_iff, Fields.text?_eq_some_iff]
  constructor
  · rintro ⟨key, ⟨hkey, rfl⟩, description, ⟨hdescription, rfl⟩, defaultValue, ⟨hdefault, rfl⟩, h⟩
    cases h
    exact ⟨by simp [WellFormed, textNames, hkey, hdescription, hdefault], rfl⟩
  · rintro ⟨h, rfl⟩
    exact ⟨_, ⟨h _ (by simp [textNames]), rfl⟩, _, ⟨h _ (by simp [textNames]), rfl⟩, _,
      ⟨h _ (by simp [textNames]), rfl⟩, rfl⟩

end Parameter

/-! ## Rules -/

namespace RuleEntry

/-- **A table gives a rule**: it has a name that is not blank, a description that is a text or
missing, and a list of parameters or none. -/
structure WellFormed (fields : Fields Value) : Prop where
  name : ∃ s, fields.get? "name" = some (.text s) ∧ Text.isBlankText s = false
  description : fields.MayHaveText "description"
  parameters : fields.MayHaveList "parameters"
  items : ∀ v ∈ fields.givenItems "parameters", v.IsTable Parameter.WellFormed

/-- The name of the rule that a table gives. -/
def givenName (fields : Fields Value) : String :=
  Text.trimmed (fields.givenText "name")

/-- The parameters that a table gives, blank ones and repeated ones with the others. -/
def givenParameters (fields : Fields Value) : List Parameter :=
  (fields.givenItems "parameters").map fun v => Parameter.given v.givenFields

/-- The rule that a table gives. -/
def given (fields : Fields Value) : RuleEntry :=
  addParameters { name := givenName fields, rawDescription := fields.givenText "description" }
    (givenParameters fields)

/-- The name of the rule given is trimmed. -/
@[simp] theorem name_given (fields : Fields Value) : (given fields).name = givenName fields :=
  name_addParameters _ _

/-- The description of the rule given is not. -/
@[simp] theorem rawDescription_given (fields : Fields Value) :
    (given fields).rawDescription = fields.givenText "description" :=
  rawDescription_addParameters _ _

/-- Blank parameters of the payload are left out, and of equal ones a rule keeps one. -/
theorem mem_parameters_given {fields : Fields Value} {p : Parameter} :
    p ∈ (given fields).parameters ↔ p ∈ givenParameters fields ∧ p.isBlank = false := by
  rw [given, mem_addParameters]
  exact or_iff_right (ParameterSet.not_mem_empty p)

/-- The items of a list are read one after another, and one that is no table fails the whole list.
The index only numbers the error. -/
theorem parametersOf_eq_ok_iff {index : Nat} {items : List Value} {ps : List Parameter} :
    parametersOf index items = .ok ps
      ↔ (∀ v ∈ items, v.IsTable Parameter.WellFormed)
        ∧ ps = items.map fun v => Parameter.given v.givenFields := by
  induction items generalizing index ps with
  | nil => simp [parametersOf, eq_comm]
  | cons v items ih =>
    rw [parametersOf, List.forall_mem_cons, List.map_cons]
    cases hfields : v.fields? with
    | none => simp [Value.IsTable, hfields]
    | some fields =>
      simp only [Fallible.bind_eq_ok_iff, Parameter.ofFields_eq_ok_iff, ih,
        Value.isTable_iff hfields, Value.givenFields_eq hfields]
      constructor
      · rintro ⟨p, ⟨hp, rfl⟩, rest, ⟨hrest, rfl⟩, h⟩
        cases h
        exact ⟨⟨hp, hrest⟩, rfl⟩
      · rintro ⟨⟨hp, hrest⟩, rfl⟩
        exact ⟨_, ⟨hp, rfl⟩, _, ⟨hrest, rfl⟩, rfl⟩

/-- Parameters that are written as tables are read one by one. -/
theorem parametersOf_map {write : Parameter → Value} {found : Parameter → Parameter}
    (h : ∀ p, ∃ fields, (write p).fields? = some fields
      ∧ Parameter.ofFields fields = .ok (found p)) (index : Nat) (ps : List Parameter) :
    parametersOf index (ps.map write) = .ok (ps.map found) := by
  have hgiven (p : Parameter) : (write p).IsTable Parameter.WellFormed
      ∧ found p = Parameter.given (write p).givenFields := by
    obtain ⟨fields, hfields, hread⟩ := h p
    rw [Value.isTable_iff hfields, Value.givenFields_eq hfields]
    exact Parameter.ofFields_eq_ok_iff.mp hread
  refine parametersOf_eq_ok_iff.mpr ⟨fun v hv => ?_, ?_⟩
  · obtain ⟨p, -, rfl⟩ := List.mem_map.mp hv
    exact (hgiven p).1
  · rw [List.map_map]
    exact List.map_congr_left fun p _ => (hgiven p).2

/-- **A rule is read if its table is well-formed**, and is what the table gives.  The checks are
made one after another, so the proof follows their order; `WellFormed` does not. -/
theorem ofFields_eq_ok_iff {fields : Fields Value} {e : RuleEntry} :
    ofFields fields = .ok e ↔ WellFormed fields ∧ e = given fields := by
  -- The other parts are looked at only where there is a name.
  by_cases hname : ∃ s, fields.get? "name" = some (.text s) ∧ Text.isBlankText s = false
  · obtain ⟨s, hget, hblank⟩ := id hname
    have hgiven : fields.givenText "name" = s := by simp [Fields.givenText, Fields.text?, hget]
    simp only [ofFields, hget, hblank, Bool.false_eq_true, if_false, Fallible.bind_eq_ok_iff,
      Fallible.elim_eq_ok_iff, Fields.text?_eq_some_iff, Fields.list?_eq_some_iff,
      parametersOf_eq_ok_iff]
    constructor
    · rintro ⟨_, hs, _, ⟨hdescription, rfl⟩, _, ⟨hparameters, rfl⟩, _, ⟨hitems, rfl⟩, h⟩
      cases hs
      cases h
      exact ⟨⟨hname, hdescription, hparameters, hitems⟩, by rw [given, givenName, hgiven]; rfl⟩
    · rintro ⟨h, rfl⟩
      exact ⟨s, rfl, _, ⟨h.description, rfl⟩, _, ⟨h.parameters, rfl⟩, _, ⟨h.items, rfl⟩,
        by rw [given, givenName, hgiven]; rfl⟩
  · have hmissing : ofFields fields = .error .nameMissing := by
      unfold ofFields
      split
      · next s hget =>
        split
        · rfl
        · next hblank => exact absurd ⟨s, hget, by simpa using hblank⟩ hname
      · rfl
    rw [hmissing]
    exact iff_of_false (by simp) fun h => hname h.1.name

/-- The two directions of reading an entry that a catalogue needs, for a value whose fields are
known. -/
theorem given_of_ofFields {v : Value} {fields : Fields Value} {e : RuleEntry}
    (hfields : v.fields? = some fields) (h : ofFields fields = .ok e) :
    v.IsTable WellFormed ∧ given v.givenFields = e := by
  rw [Value.isTable_iff hfields, Value.givenFields_eq hfields]
  obtain ⟨hwell, rfl⟩ := ofFields_eq_ok_iff.mp h
  exact ⟨hwell, rfl⟩

end RuleEntry

/-! ## Catalogues -/

namespace Catalogue

/-- **A table gives a catalogue**: it has the version one, and a list of rules or none; each item of
the list gives a rule, and no two of them give rules of the same name. -/
structure WellFormed (fields : Fields Value) : Prop where
  version : ∃ v, fields.get? "version" = some v ∧ v.EqualsOne
  rules : fields.MayHaveList "rules"
  items : ∀ v ∈ fields.givenItems "rules", v.IsTable RuleEntry.WellFormed
  distinct : ((fields.givenItems "rules").map fun v => RuleEntry.givenName v.givenFields).Nodup

/-- **Rules are filed if their names are new and differ.** The induction is on the items; `c` holds
the rules filed before them, and its names count as taken. -/
theorem addRules_eq_ok_iff {c filed : Catalogue} {index : Nat} {items : List Value} :
    addRules c index items = .ok filed
      ↔ (∀ v ∈ items, v.IsTable RuleEntry.WellFormed)
        ∧ (c.keys ++ items.map fun v => RuleEntry.givenName v.givenFields).Nodup
        ∧ filed.fields = c.fields ++ items.map fun v =>
            (RuleEntry.givenName v.givenFields, RuleEntry.given v.givenFields) := by
  -- The names filed so far are carried along as those of `c`.
  induction items generalizing c index with
  | nil =>
    have hfields : filed.fields = c.fields ↔ c = filed :=
      ⟨fun h => Table.ext_get? (congrArg Fields.keys h.symm) fun name =>
        congrArg (Fields.get? name) h.symm, fun h => h ▸ rfl⟩
    simp [addRules, hfields, Table.keys, c.nodup]
  | cons v items ih =>
    rw [addRules, List.forall_mem_cons, List.map_cons, List.map_cons]
    cases hfields : v.fields? with
    | none => simp [Value.IsTable, hfields]
    | some fields =>
      simp only [Fallible.bind_eq_ok_iff, RuleEntry.ofFields_eq_ok_iff, Value.isTable_iff hfields,
        Value.givenFields_eq hfields, and_assoc, exists_and_left, exists_eq_left,
        RuleEntry.name_given]
      by_cases hmem : RuleEntry.givenName fields ∈ c.keys
      · -- A name that is filed already would stand twice.
        have htwice : ¬ (c.keys ++ RuleEntry.givenName fields
            :: items.map fun v => RuleEntry.givenName v.givenFields).Nodup := fun hnodup =>
          (List.nodup_append.mp hnodup).2.2 _ hmem _ List.mem_cons_self rfl
        simp [Table.contains_iff.mpr hmem, htwice]
      · have hkeys (e : RuleEntry) : (c.insert (RuleEntry.givenName fields) e).keys
            = c.keys ++ [RuleEntry.givenName fields] := by
          rw [Table.keys_insert, if_neg hmem]
        rw [if_neg (mt Table.contains_iff.mp hmem), ih, hkeys,
          Table.fields_insert_of_not_mem hmem, ← List.append_cons, ← List.append_cons]

/-- A missing version counts as no version, and never as the number one. -/
theorem equalsInt_version_iff {fields : Fields Value} :
    ((fields.get? "version").getD .null).equalsInt payloadVersion
      ↔ ∃ v, fields.get? "version" = some v ∧ v.EqualsOne := by
  cases hget : fields.get? "version" with
  | none => simp [Value.equalsInt]
  | some v => simp [Value.equalsInt_version_iff]

/-- **A payload is read if and only if it is well-formed**, and its catalogue has the rules in the
order of the payload. -/
theorem ofFields_eq_ok_iff {fields : Fields Value} {c : Catalogue} :
    ofFields fields = .ok c
      ↔ WellFormed fields ∧ c.fields = (fields.givenItems "rules").map fun v =>
          (RuleEntry.givenName v.givenFields, RuleEntry.given v.givenFields) := by
  unfold ofFields
  dsimp only
  split
  · next hversion =>
    rw [equalsInt_version_iff] at hversion
    simp only [Fallible.bind_eq_ok_iff, Fallible.elim_eq_ok_iff, Fields.list?_eq_some_iff,
      addRules_eq_ok_iff]
    constructor
    · rintro ⟨_, ⟨hrules, rfl⟩, hitems, hdistinct, hfiled⟩
      exact ⟨⟨hversion, hrules, hitems, hdistinct⟩, hfiled⟩
    · rintro ⟨h, hfiled⟩
      exact ⟨_, ⟨h.rules, rfl⟩, h.items, h.distinct, hfiled⟩
  · next hversion =>
    rw [equalsInt_version_iff] at hversion
    exact iff_of_false (by simp) fun h => hversion h.1.version

/-- **Exactly the well-formed payloads are read**, and any other gives an error.  What is read has
the trimmed names in their order, and under each of them the description as it is given and those of
the given parameters that are not blank. -/
theorem ofFields_wellFormed (fields : Fields Value) :
    ((∃ c, ofFields fields = .ok c) ↔ WellFormed fields)
    ∧ ((∃ e, ofFields fields = .error e) ↔ ¬ WellFormed fields)
    ∧ ∀ c, ofFields fields = .ok c →
        c.keys = (fields.givenItems "rules").map (fun v => RuleEntry.givenName v.givenFields)
        ∧ ∀ v ∈ fields.givenItems "rules", ∃ e,
            c.get? (RuleEntry.givenName v.givenFields) = some e
            ∧ e.name = RuleEntry.givenName v.givenFields
            ∧ e.rawDescription = v.givenFields.givenText "description"
            ∧ ∀ p, p ∈ e.parameters
                ↔ p ∈ RuleEntry.givenParameters v.givenFields ∧ p.isBlank = false := by
  have hread : (∃ c, ofFields fields = .ok c) ↔ WellFormed fields := by
    simp only [ofFields_eq_ok_iff]
    refine ⟨fun ⟨_, h, _⟩ => h, fun h => ⟨⟨_, ?_⟩, h, rfl⟩⟩
    simpa [Fields.keys, Function.comp_def] using h.distinct
  refine ⟨hread, ?_, fun c hc => ?_⟩
  · rw [← hread]
    cases ofFields fields <;> simp
  · obtain ⟨-, hfields⟩ := ofFields_eq_ok_iff.mp hc
    refine ⟨?_, fun v hv => ?_⟩
    · rw [Table.keys, hfields, Fields.keys, List.map_map]
      rfl
    · refine ⟨RuleEntry.given v.givenFields, ?_, RuleEntry.name_given _,
        RuleEntry.rawDescription_given _, fun p => RuleEntry.mem_parameters_given⟩
      refine (Fields.get?_eq_some_iff c.nodup).mpr ?_
      rw [hfields]
      exact List.mem_map_of_mem hv

/-- A name with blanks around it, a version that is a truth value, and of the parameters a blank one
and the same one twice. -/
theorem ofFields_wellFormed_padded :
    let parameter : Value := .table [("key", .text "k")]
    let rule : Value := .table
      [("name", .text " Foo "), ("parameters", .list [.table [], parameter, parameter])]
    let fields : Fields Value := [("rules", .list [rule]), ("version", .bool true)]
    ∃ c, ofFields fields = .ok c ∧ c.keys = ["Foo"] ∧ ∃ e, c.get? "Foo" = some e
      ∧ e.name = "Foo" ∧ e.rawDescription = ""
      ∧ ∀ p, p ∈ e.parameters ↔ p ∈ [{}, { key := "k" }, { key := "k" }] ∧ p.isBlank = false := by
  intro parameter rule fields
  have hparameter (v : Value) (hv : v ∈ [.table [], parameter, parameter]) :
      v.IsTable Parameter.WellFormed := by
    simp only [List.mem_cons, List.not_mem_nil, or_false] at hv
    rcases hv with rfl | rfl | rfl
    all_goals
      refine ⟨_, rfl, ?_⟩
      simp [Parameter.WellFormed, Parameter.textNames, Fields.MayHaveText, Fields.get?]
  have hrule : rule.IsTable RuleEntry.WellFormed :=
    ⟨_, rfl, ⟨" Foo ", rfl, by decide⟩, by simp [Fields.MayHaveText, Fields.get?],
      by simp [Fields.MayHaveList, Fields.get?], hparameter⟩
  have hwell : WellFormed fields :=
    ⟨⟨_, rfl, .bool⟩, by simp [fields, Fields.MayHaveList, Fields.get?],
      fun v hv => List.mem_singleton.mp hv ▸ hrule, List.pairwise_singleton _ _⟩
  have hname : RuleEntry.givenName rule.givenFields = "Foo" := by decide
  obtain ⟨haccepted, -, hgiven⟩ := ofFields_wellFormed fields
  obtain ⟨c, hc⟩ := haccepted.mpr hwell
  obtain ⟨hkeys, hrules⟩ := hgiven c hc
  obtain ⟨e, hget, hfiled, hdescription, hparameters⟩ := hrules rule (List.mem_singleton.mpr rfl)
  rw [hname] at hget hfiled
  refine ⟨c, hc, hkeys.trans ?_, e, hget, hfiled, hdescription, hparameters⟩
  exact congrArg (fun name => [name]) hname

/-- Names that differ in blanks alone are the same name. -/
example :
    (ofFields [("version", .int 1), ("rules",
      .list [.table [("name", .text "Foo")], .table [("name", .text "Foo ")]])]).isOk = false := by
  decide

end Catalogue

end RuleCatalogue

/-! ## Payloads read back -/

namespace RuleCatalogue

/-! ## Parameters -/

namespace Parameter

/-- The value of a parameter has only texts, so every format can write it. -/
theorem portable_toValue (p : Parameter) : p.toValue.Portable := by
  refine .table _ (by simp [Fields.keys]) fun field hfield => ?_
  simp only [List.mem_cons, List.not_mem_nil, or_false] at hfield
  rcases hfield with rfl | rfl | rfl <;> exact .text _

/-- A parameter as it is written: the names of its table are sorted. -/
def stored (p : Parameter) : Value :=
  p.toValue.withSortedNames

/-- **A rule is what its table answers**: only the three names are asked for, so the order of the
fields and any further ones do not matter. -/
theorem ofFields_eq {fields : Fields Value} {p : Parameter}
    (hkey : fields.get? "key" = some (.text p.key))
    (hdescription : fields.get? "description" = some (.text p.description))
    (hdefault : fields.get? "default_value" = some (.text p.defaultValue)) :
    ofFields fields = .ok p := by
  simp only [ofFields, Fields.text?, hkey, hdescription, hdefault]
  rfl

/-- A stored parameter is a table that reads as the parameter. -/
theorem exists_fields?_stored (p : Parameter) :
    ∃ fields, p.stored.fields? = some fields ∧ ofFields fields = .ok p := by
  refine ⟨_, congrArg Value.fields? (Value.withSortedNames_table _), ofFields_eq ?_ ?_ ?_⟩
  all_goals
    rw [Value.get?_sortNames (by simp [Fields.keys])]
    simp [Fields.get?]

end Parameter

/-! ## Rules -/

namespace RuleEntry

/-- An entry as it is shown: its description is trimmed. -/
def asShown (e : RuleEntry) : RuleEntry :=
  { e with rawDescription := e.description }

/-- Trimming a description twice trims it once. -/
theorem description_asShown (e : RuleEntry) : e.asShown.description = e.description := by
  show Text.trimmed (Text.trimmed e.rawDescription) = Text.trimmed e.rawDescription
  simp [Text.trimmed, Text.trim_of_trimmed (Text.trimmed_trim _)]

/-- The value of an entry is a table of texts and of a list of such tables. -/
theorem portable_toValue (e : RuleEntry) : e.toValue.Portable := by
  refine .table _ (by simp [Fields.keys]) fun field hfield => ?_
  simp only [List.mem_cons, List.not_mem_nil, or_false] at hfield
  rcases hfield with rfl | rfl | rfl
  · exact .text _
  · exact .text _
  · refine .list _ fun v hv => ?_
    obtain ⟨p, -, rfl⟩ := List.mem_map.mp hv
    exact p.portable_toValue

/-- Stored parameters read as themselves, from whatever number the errors count on. -/
theorem parametersOf_map_stored (index : Nat) (ps : List Parameter) :
    parametersOf index (ps.map Parameter.stored) = .ok ps := by
  rw [parametersOf_map Parameter.exists_fields?_stored, List.map_id']

/-- The name of a regular entry is a word, so the check for a missing name lets it pass. -/
theorem Regular.isBlankText_name {e : RuleEntry} (h : e.Regular) :
    Text.isBlankText e.name = false := by
  have hne : e.name.toList ≠ [] := fun hnil => h.named (String.toList_inj.mp hnil)
  rw [Text.isBlankText, ← Bool.not_eq_true, List.all_eq_true]
  intro hall
  obtain ⟨c, hc, hnot⟩ := List.any_eq_true.mp (h.trimmed.any_not_blank hne)
  simp [hall c hc] at hnot

/-- The name of a regular entry is a word, so trimming keeps it. -/
theorem Regular.trimmed_name {e : RuleEntry} (h : e.Regular) : Text.trimmed e.name = e.name := by
  rw [Text.trimmed, Text.trim_of_trimmed h.trimmed, String.ofList_toList]

/-- A rule gets all its parameters back. -/
theorem Regular.addParameters_toList {e : RuleEntry} (h : e.Regular) :
    addParameters { name := e.name, rawDescription := e.description } e.parameters.toList
      = e.asShown := by
  refine RuleEntry.ext (name_addParameters _ _) (ParameterSet.ext_mem fun p => ?_)
    (rawDescription_addParameters _ _)
  rw [mem_addParameters]
  show p ∈ (∅ : ParameterSet) ∨ _ ↔ p ∈ e.parameters
  simp only [ParameterSet.not_mem_empty, false_or]
  exact ⟨fun hp => hp.1, fun hp => ⟨hp, h.noBlanks p hp⟩⟩

/-- **A catalogue is read from what its payload answers.** `rule` may write the entries in any form
whose tables read back, so the three formats share this lemma. -/
theorem ofFields_eq {fields : Fields Value} {e : RuleEntry} (h : e.Regular)
    (hname : fields.get? "name" = some (.text e.name))
    (hdescription : fields.get? "description" = some (.text e.description))
    (hparameters :
      fields.get? "parameters" = some (.list (e.parameters.toList.map Parameter.stored))) :
    ofFields fields = .ok e.asShown := by
  simp only [ofFields, Fields.text?, Fields.list?, hname, hdescription, hparameters,
    h.isBlankText_name]
  simp only [Option.elim, bind, Except.bind, parametersOf_map_stored, h.trimmed_name]
  exact congrArg Except.ok h.addParameters_toList

/-- A rule is read from its table with sorted names. -/
theorem exists_fields?_stored {e : RuleEntry} (h : e.Regular) :
    ∃ fields, e.toValue.withSortedNames.fields? = some fields
      ∧ ofFields fields = .ok e.asShown := by
  refine ⟨_, congrArg Value.fields? (Value.withSortedNames_table _), ofFields_eq h ?_ ?_ ?_⟩
  · rw [Value.get?_sortNames (by simp [Fields.keys])]
    simp [Fields.get?]
  · rw [Value.get?_sortNames (by simp [Fields.keys])]
    simp [Fields.get?]
  · rw [Value.get?_sortNames (by simp [Fields.keys])]
    show some (Value.list (e.parameters.toList.map Parameter.toValue)).withSortedNames = _
    rw [Value.withSortedNames_list, List.map_map]
    rfl

end RuleEntry

/-! ## Catalogues -/

namespace Catalogue

/-- A catalogue as it is shown: its rules sorted by name, their descriptions trimmed. -/
def asShown (c : Catalogue) : Catalogue where
  fields := (Fields.sorted c.fields).map fun field => (field.1, field.2.asShown)
  nodup := by
    rw [Fields.keys_mapValues fun _ => RuleEntry.asShown]
    exact Fields.nodup_keys_sorted c.nodup

/-- A catalogue is shown in the order of its names. -/
theorem keys_asShown (c : Catalogue) :
    c.asShown.keys = c.keys.mergeSort fun a b => decide (a ≤ b) := by
  show Fields.keys ((Fields.sorted c.fields).map fun field => (field.1, field.2.asShown)) = _
  rw [Fields.keys_mapValues fun _ => RuleEntry.asShown, Fields.keys_sorted]
  rfl

/-- Showing a catalogue changes its entries one by one. -/
theorem get?_asShown (c : Catalogue) (name : String) :
    c.asShown.get? name = (c.get? name).map RuleEntry.asShown := by
  show Fields.get? name ((Fields.sorted c.fields).map fun field => (field.1, field.2.asShown)) = _
  rw [Fields.get?_mapValues fun _ => RuleEntry.asShown, Fields.get?_sorted c.nodup]
  rfl

section SortedEntries

variable {c : Catalogue}

/-- Sorting keeps every field; names are not repeated, so each is found under its name. -/
theorem get?_of_mem_sorted {field : String × RuleEntry} (hfield : field ∈ Fields.sorted c.fields) :
    c.get? field.1 = some field.2 :=
  (Fields.get?_eq_some_iff c.nodup).mpr ((Fields.sorted_perm c.fields).mem_iff.mp hfield)

/-- In a catalogue whose entries are filed under their own names, a field's name is that of its
entry. -/
theorem of_mem_sorted (h : c.Filed) {field : String × RuleEntry}
    (hfield : field ∈ Fields.sorted c.fields) :
    c.get? field.1 = some field.2 ∧ field.2.name = field.1 :=
  ⟨get?_of_mem_sorted hfield, h _ _ (get?_of_mem_sorted hfield)⟩

/-- Each entry that is shown is the one filed under its name. -/
theorem get?_of_mem_sortedEntries (h : c.Filed) {e : RuleEntry} (he : e ∈ c.sortedEntries) :
    c.get? e.name = some e := by
  obtain ⟨field, hfield, rfl⟩ := List.mem_map.mp he
  obtain ⟨hget, hname⟩ := of_mem_sorted h hfield
  rwa [hname]

/-- Each entry that is filed is shown. -/
theorem mem_sortedEntries {name : String} {e : RuleEntry} (h : c.get? name = some e) :
    e ∈ c.sortedEntries :=
  List.mem_map_of_mem (f := Prod.snd)
    ((Fields.sorted_perm c.fields).mem_iff.mpr ((Fields.get?_eq_some_iff c.nodup).mp h))

/-- The entries are shown in the order of their names, none twice. -/
theorem map_name_sortedEntries (h : c.Filed) :
    c.sortedEntries.map RuleEntry.name = c.keys.mergeSort fun a b => decide (a ≤ b) := by
  rw [sortedEntries, List.map_map, Table.keys, ← Fields.keys_sorted]
  exact List.map_congr_left fun field hfield => (of_mem_sorted h hfield).2

/-- The entries stand in the order of the names under which they are filed. -/
theorem sortedEntries_eq (c : Catalogue) : c.sortedEntries = c.asShown.keys.map c.entryOrNew := by
  rw [sortedEntries, keys_asShown, Table.keys, ← Fields.keys_sorted, Fields.keys, List.map_map]
  refine List.map_congr_left fun field hfield => ?_
  rw [Function.comp_apply, entryOrNew, get?_of_mem_sorted hfield, Option.getD_some]

end SortedEntries

/-- **A catalogue is read from what its payload answers.** -/
theorem ofFields_eq {c : Catalogue} (h : c.Regular) {fields : Fields Value}
    {rule : RuleEntry → Value} (hversion : fields.get? "version" = some (.int payloadVersion))
    (hrules : fields.list? "rules" = some (c.sortedEntries.map rule))
    (hread : ∀ e ∈ c.sortedEntries, e.Regular →
      ∃ fields, (rule e).fields? = some fields ∧ RuleEntry.ofFields fields = .ok e.asShown) :
    ofFields fields = .ok c.asShown := by
  obtain ⟨hlist, hitems⟩ := Fields.list?_eq_some_iff.mp hrules
  have hgiven (e : RuleEntry) (he : e ∈ c.sortedEntries) :
      (rule e).IsTable RuleEntry.WellFormed
        ∧ RuleEntry.given (rule e).givenFields = e.asShown := by
    obtain ⟨found, hfound, hentry⟩ :=
      hread e he (h.entries _ e (get?_of_mem_sortedEntries h.filed he))
    exact RuleEntry.given_of_ofFields hfound hentry
  have hpairs : c.asShown.fields = (fields.givenItems "rules").map fun v =>
      (RuleEntry.givenName v.givenFields, RuleEntry.given v.givenFields) := by
    rw [← hitems, sortedEntries, List.map_map, List.map_map]
    refine List.map_congr_left fun field hfield => ?_
    have hentry := (hgiven field.2 (List.mem_map_of_mem hfield)).2
    have hname : field.2.asShown.name = field.1 := (of_mem_sorted h.filed hfield).2
    simp only [Function.comp_apply, ← RuleEntry.name_given, hentry, hname]
  refine ofFields_eq_ok_iff.mpr ⟨⟨⟨_, hversion, .int⟩, hlist, fun v hv => ?_, ?_⟩, hpairs⟩
  · rw [← hitems] at hv
    obtain ⟨e, he, rfl⟩ := List.mem_map.mp hv
    exact (hgiven e he).1
  · have hnodup := c.asShown.nodup
    rwa [hpairs, Fields.keys, List.map_map] at hnodup

end Catalogue

end RuleCatalogue
