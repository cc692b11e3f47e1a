import Mathlib.Data.List.Nodup
import RuleCatalogue.Proofs.Fallible
import RuleCatalogue.Proofs.Settings.Validation
import RuleCatalogue.Proofs.Text.Substring
import RuleCatalogue.Settings.Layers

/-!
# What single fields are set to

The layers of the environment and of the command line are written field by field.  Both are
described by the assignments that they make (`assigned`), whose order does not matter as long as no
field is assigned twice: a field has the value that it is assigned (`fieldAt_assigned_iff`).

Making paths absolute changes the texts of the path fields and nothing else (`Placed`).  It fails if
one of these texts begins with a home directory that is not known, and only then
(`exists_absolutePaths_iff`).

## Main results

* `variableLayer_eq` and `fieldAt_variables`: the layer of the environment gives each field the
  value of its variable.
* `optionLayer_eq` and `fieldAt_options`: the layer of the command line gives each field the value
  of its option.

## Design notes

`Placed` is stated field by field, with the names of the tables kept beside it (`Alike`), because
the checks that follow ask for fields by their names.  A field is assigned through the overlay of a
table of one field, which is why values that are tables have to be excluded (`Plain`).
-/

/-! ## Layers that are assigned field by field -/

namespace RuleCatalogue.Settings

/-! ## Assignments -/

/-- A field by its section and name, and its value. -/
abbrev Assignment := (String × String) × Value

/-- A layer with all assignments made. -/
def assigned (layer : Fields Value) (assignments : List Assignment) : Fields Value :=
  assignments.foldl (fun layer a => withField layer a.1.1 a.1.2 a.2) layer

/-- **No assignment gives a field a table.** -/
def Plain (assignments : List Assignment) : Prop :=
  ∀ a ∈ assignments, ∀ fields, a.2 ≠ .table fields

variable {layer base : Fields Value} {assignments : List Assignment} {name key : String} {v : Value}

/-- A layer of one assignment has the assigned section as a table, and no other section. -/
theorem hasSection_singleton (place : String × String) (v : Value) (name : String) :
    HasSection [(place.1, .table [(place.2, v)])] name where
  nodup := List.nodup_singleton _
  inner w hw := by
    rw [Fields.get?] at hw
    split at hw
    · cases hw
      exact ⟨_, rfl, List.nodup_singleton _⟩
    · cases hw

/-- A layer of one assignment has a value at that place only. -/
theorem fieldAt_singleton (place : String × String) (v : Value) (name key : String) :
    fieldAt [(place.1, .table [(place.2, v)])] name key
      = if place = (name, key) then some v else none := by
  obtain ⟨first, second⟩ := place
  by_cases hname : first = name
  · by_cases hkey : second = key <;> simp [fieldAt, Fields.get?, tableFields, hname, hkey]
  · simp [fieldAt, Fields.get?, hname]

/-- A place assigned a value has it, and every other place keeps its own.  The value must be no
table, or it would be laid over what is there and not replace it. -/
theorem fieldAt_withField (layer : Fields Value) (place : String × String) (v : Value)
    (hv : ∀ fields, v ≠ .table fields) (name key : String) :
    fieldAt (withField layer place.1 place.2 v) name key
      = if place = (name, key) then some v else fieldAt layer name key := by
  have hplain : ∀ fields, fieldAt [(place.1, .table [(place.2, v)])] name key
      ≠ some (.table fields) := by
    intro fields h
    rw [fieldAt_singleton] at h
    split at h
    · exact hv fields (Option.some.inj h)
    · exact nomatch h
  rw [withField, fieldAt_overlay_of_not_table (hasSection_singleton place v name) hplain,
    fieldAt_singleton]
  split <;> rfl

/-- The empty layer has no section, which is as good as one that is a table. -/
theorem hasSection_empty (name : String) : HasSection [] name where
  nodup := List.nodup_nil
  inner _ h := nomatch h

/-- All sections of a layer that is assigned are tables. -/
theorem hasSection_withField (h : ∀ name, HasSection layer name) (place : String × String)
    (v : Value) (name : String) : HasSection (withField layer place.1 place.2 v) name where
  nodup := nodup_keys_overlay (h name).nodup _
  inner w hw := by
    rw [withField, get?_overlay (hasSection_singleton place v name).nodup, Fields.get?] at hw
    split at hw
    · next hname =>
      rw [Option.map_some, Option.some_or, overlayValue_table] at hw
      cases hw
      refine ⟨_, rfl, nodup_keys_overlay ?_ _⟩
      cases hlayer : layer.get? name with
      | none => exact List.nodup_nil
      | some w =>
        obtain ⟨fields, rfl, nodup⟩ := (h name).inner w hlayer
        exact nodup
    · exact (h name).inner w hw

/-- Assigning keeps the sections tables, by induction over the assignments. -/
theorem hasSection_assigned (h : ∀ name, HasSection layer name) (assignments : List Assignment)
    (name : String) : HasSection (assigned layer assignments) name := by
  induction assignments generalizing layer with
  | nil => exact h name
  | cons a rest ih => exact ih (hasSection_withField h a.1 a.2)

/-- A place that is not assigned keeps its value. -/
theorem fieldAt_assigned_of_not_mem (plain : Plain assignments)
    (hfresh : (name, key) ∉ assignments.map Prod.fst) :
    fieldAt (assigned layer assignments) name key = fieldAt layer name key := by
  induction assignments generalizing layer with
  | nil => rfl
  | cons a rest ih =>
    obtain ⟨hne, hrest⟩ := not_or.mp fun h => hfresh (List.mem_cons.mpr h)
    have hplain : Plain rest := fun b hb => plain b (List.mem_cons_of_mem a hb)
    rw [assigned, List.foldl_cons]
    refine (ih hplain hrest).trans ?_
    rw [fieldAt_withField _ _ _ (plain a List.mem_cons_self), if_neg (Ne.symm hne)]

/-- **A place that is assigned once has the value assigned**, whatever is assigned before and after
it.  `plain` asks that no value is a table, which would be laid over what is there. -/
theorem fieldAt_assigned_of_mem (plain : Plain assignments)
    (nodup : (assignments.map Prod.fst).Nodup) (h : ((name, key), v) ∈ assignments) :
    fieldAt (assigned layer assignments) name key = some v := by
  induction assignments generalizing layer with
  | nil => exact nomatch h
  | cons a rest ih =>
    obtain ⟨hfresh, hnodup⟩ := List.nodup_cons.mp nodup
    have hplain : Plain rest := fun b hb => plain b (List.mem_cons_of_mem a hb)
    rcases List.mem_cons.mp h with rfl | hrest
    · -- Nothing behind it assigns the field again.
      refine (fieldAt_assigned_of_not_mem hplain hfresh).trans ?_
      rw [fieldAt_withField _ _ _ (plain _ List.mem_cons_self), if_pos rfl]
    · exact ih hplain hnodup hrest

/-- **What has been assigned** to an empty layer, if no field is assigned twice: the layer and the
list of assignments say the same. -/
theorem fieldAt_assigned_iff (plain : Plain assignments)
    (nodup : (assignments.map Prod.fst).Nodup) :
    fieldAt (assigned [] assignments) name key = some v ↔ ((name, key), v) ∈ assignments := by
  constructor
  · intro h
    by_cases hmem : (name, key) ∈ assignments.map Prod.fst
    · obtain ⟨⟨place, w⟩, ha, rfl⟩ := List.mem_map.mp hmem
      rw [fieldAt_assigned_of_mem plain nodup ha] at h
      exact Option.some.inj h ▸ ha
    · rw [fieldAt_assigned_of_not_mem plain hmem] at h
      exact nomatch h
  · exact fieldAt_assigned_of_mem plain nodup

/-- A layer is assigned by steps that each make one assignment or none. -/
theorem foldlM_eq_assigned {α : Type} {f : Fields Value → α → Except Failure (Fields Value)}
    {assignment? : α → Option Assignment} {l : List α}
    (h : ∀ layer, ∀ a ∈ l, f layer a
      = .ok ((assignment? a).elim layer fun a => withField layer a.1.1 a.1.2 a.2))
    (layer : Fields Value) :
    l.foldlM f layer = .ok (assigned layer (l.filterMap assignment?)) := by
  induction l generalizing layer with
  | nil => rfl
  | cons a rest ih =>
    have hrest := ih fun layer b hb => h layer b (List.mem_cons_of_mem a hb)
    rw [List.foldlM_cons, h layer a List.mem_cons_self]
    refine (hrest _).trans ?_
    cases ha : assignment? a with
    | none => rw [List.filterMap_cons_none ha, Option.elim_none]
    | some b => rw [List.filterMap_cons_some ha, Option.elim_some]; rfl

/-- Fields that are told apart by what they come from are not assigned twice. -/
theorem nodup_assignments {α γ : Type} {assignment? : α → Option Assignment} {l : List α}
    (origin : α → γ) (originOf : String × String → γ)
    (h : ∀ a ∈ l, ∀ b ∈ assignment? a, originOf b.1 = origin a) (nodup : (l.map origin).Nodup) :
    ((l.filterMap assignment?).map Prod.fst).Nodup := by
  induction l with
  | nil => exact List.nodup_nil
  | cons a rest ih =>
    obtain ⟨hfresh, hnodup⟩ := List.nodup_cons.mp nodup
    have hrest := ih (fun c hc => h c (List.mem_cons_of_mem a hc)) hnodup
    cases ha : assignment? a with
    | none => rwa [List.filterMap_cons_none ha]
    | some b =>
      rw [List.filterMap_cons_some ha]
      refine List.nodup_cons.mpr ⟨fun hmem => hfresh ?_, hrest⟩
      obtain ⟨c, hc, hplace⟩ := List.mem_map.mp hmem
      obtain ⟨d, hd, hcd⟩ := List.mem_filterMap.mp hc
      refine List.mem_map.mpr ⟨d, hd, ?_⟩
      rw [← h d (List.mem_cons_of_mem a hd) c hcd, hplace, h a List.mem_cons_self b ha]

/-! ## The layer of the environment -/

variable {origin : String} {rule : FieldRule}

/-- The variables are read for the fields that have one: every field of every section but the one
that describes the file. -/
theorem mem_variableFields :
    (origin, name, key, rule) ∈ variableFields
      ↔ IsField name key rule ∧ name ≠ "meta" ∧ variableName name key = origin := by
  rw [variableFields, (List.mergeSort_perm _ _).mem_iff, List.mem_flatMap]
  constructor
  · rintro ⟨⟨first, rules⟩, hsection, h⟩
    dsimp only at h
    split at h
    · exact nomatch h
    · next hmeta =>
      obtain ⟨⟨second, rule'⟩, hrule, heq⟩ := List.mem_map.mp h
      cases heq
      exact ⟨⟨rules, hsection, hrule⟩, hmeta, rfl⟩
  · rintro ⟨⟨rules, hsection, hrule⟩, hmeta, rfl⟩
    refine ⟨(name, rules), hsection, ?_⟩
    dsimp only
    rw [if_neg hmeta]
    exact List.mem_map.mpr ⟨(key, rule), hrule, rfl⟩

/-- No field has two variables. -/
theorem nodup_variableFields :
    (variableFields.map fun field => (field.2.1, field.2.2.1)).Nodup := by
  rw [variableFields, ((List.mergeSort_perm _ _).map _).nodup_iff]
  decide

/-- **The value that the environment gives a field**: that of its variable, if it is set and of the
right form.  The version has no variable. -/
def variableValue? (bindings : Fields String) (name key : String) (rule : FieldRule) :
    Option Value :=
  if name = "meta" then none
  else
    (bindings.get? (variableName name key)).bind fun raw =>
      (variableValue (variableName name key) rule raw).toOption

/-- **Every variable that is set has the form that its field needs.** -/
def Coerces (bindings : Fields String) : Prop :=
  ∀ name key rule, IsField name key rule → name ≠ "meta" →
    ∀ raw, bindings.get? (variableName name key) = some raw →
      ∃ v, variableValue (variableName name key) rule raw = .ok v

/-- A result that is kept only if there is one. -/
theorem toOption_eq_some_iff {ε α : Type} {result : Except ε α} {a : α} :
    result.toOption = some a ↔ result = .ok a := by
  cases result <;> simp [Except.toOption]

/-- Whether variables are of the right form can be tried field by field. -/
theorem coerces_of_all {bindings : Fields String}
    (h : schema.all fun (name, rules) => rules.all fun (key, rule) =>
      name == "meta" || (bindings.get? (variableName name key)).all fun raw =>
        (variableValue (variableName name key) rule raw).toOption.isSome) :
    Coerces bindings := by
  rintro name key rule ⟨rules, hsection, hrule⟩ hmeta raw hraw
  have hfield := List.all_eq_true.mp (List.all_eq_true.mp h _ hsection) _ hrule
  rcases Bool.or_eq_true_iff.mp hfield with hname | hvalue
  · exact absurd (beq_iff_eq.mp hname) hmeta
  · rw [hraw] at hvalue
    obtain ⟨v, hv⟩ := Option.isSome_iff_exists.mp hvalue
    exact ⟨v, toOption_eq_some_iff.mp hv⟩

/-- The assignment of a variable. -/
def variableAssignment? (bindings : Fields String)
    (field : String × String × String × FieldRule) : Option Assignment :=
  (variableValue? bindings field.2.1 field.2.2.1 field.2.2.2).map fun v =>
    ((field.2.1, field.2.2.1), v)

/-- A variable's value is a scalar or a list, so it is never laid over a table. -/
theorem variableValue_ne_table {raw : String} (h : variableValue origin rule raw = .ok v)
    (fields : Fields Value) : v ≠ .table fields := by
  rintro rfl
  unfold variableValue at h
  split at h <;> dsimp only at h
  · split at h <;> exact nomatch h
  · split at h <;> exact nomatch h
  · exact nomatch h

/-- All that variables assign. -/
def variableAssignments (bindings : Fields String) : List Assignment :=
  variableFields.filterMap (variableAssignment? bindings)

/-- **The layer of the environment** consists of the values of the variables.  `Coerces` says that
each variable that is set is understood; with one that is not there is no layer. -/
theorem variableLayer_eq {bindings : Fields String} (h : Coerces bindings) :
    variableLayer bindings = .ok (assigned [] (variableAssignments bindings)) := by
  refine foldlM_eq_assigned (fun layer (origin, name, key, rule) hfield => ?_) []
  obtain ⟨hrule, hmeta, rfl⟩ := mem_variableFields.mp hfield
  rw [variableAssignment?, variableValue?, if_neg hmeta]
  cases hraw : bindings.get? (variableName name key) with
  | none =>
    simp only [hraw]
    rfl
  | some raw =>
    obtain ⟨v, hv⟩ := h name key rule hrule hmeta raw hraw
    simp only [hraw, Option.bind_some, hv]
    rfl

/-- An environment without variables sets nothing. -/
theorem variableLayer_empty : variableLayer [] = .ok [] := by
  have hkept : variableFields.foldl (fun layer _ => layer) ([] : Fields Value) = [] :=
    List.foldl_fixed variableFields
  exact List.foldlM_pure.trans (congrArg Except.ok hkept)

/-- A variable that is missing or not understood gives no value, and one that is understood gives no
table. -/
theorem variableValue?_ne_table (bindings : Fields String) (name key : String) (rule : FieldRule)
    (fields : Fields Value) : variableValue? bindings name key rule ≠ some (.table fields) := by
  intro hv
  rw [variableValue?] at hv
  split at hv
  · exact nomatch hv
  · obtain ⟨raw, -, hvalue⟩ := Option.bind_eq_some_iff.mp hv
    exact variableValue_ne_table (toOption_eq_some_iff.mp hvalue) fields rfl

/-- The assignments of the variables have no tables among their values. -/
theorem plain_variables (bindings : Fields String) :
    Plain (variableAssignments bindings) := by
  rintro ⟨place, w⟩ ha fields rfl
  obtain ⟨field, -, hassignment⟩ := List.mem_filterMap.mp ha
  obtain ⟨v, hv, heq⟩ := Option.map_eq_some_iff.mp hassignment
  cases heq
  exact variableValue?_ne_table bindings _ _ _ fields hv

/-- **The layer of the variables has at each field what its variable gives**, and nothing elsewhere:
each field has a variable of its own. -/
theorem fieldAt_variables (bindings : Fields String) (h : IsField name key rule) :
    fieldAt (assigned [] (variableAssignments bindings)) name key
      = variableValue? bindings name key rule := by
  have hnodup : ((variableAssignments bindings).map Prod.fst).Nodup := by
    refine nodup_assignments _ id (fun field _ a ha => ?_) nodup_variableFields
    obtain ⟨v, -, rfl⟩ := Option.map_eq_some_iff.mp ha
    rfl
  refine Option.ext fun v => ?_
  rw [fieldAt_assigned_iff (plain_variables bindings) hnodup, variableAssignments,
    List.mem_filterMap]
  constructor
  · rintro ⟨⟨origin, first, second, rule'⟩, hfield, ha⟩
    obtain ⟨w, hw, heq⟩ := Option.map_eq_some_iff.mp ha
    cases heq
    rw [h.unique (mem_variableFields.mp hfield).1]
    exact hw
  · intro hv
    have hmeta : name ≠ "meta" := by
      intro hname
      rw [variableValue?, if_pos hname] at hv
      exact nomatch hv
    refine ⟨(variableName name key, name, key, rule), mem_variableFields.mpr ⟨h, hmeta, rfl⟩, ?_⟩
    rw [variableAssignment?, hv]
    rfl

/-! ## The layer of the command line -/

/-- **The value of an option** for a field, if one is given. -/
def optionValue? (options : Fields Value) (name key : String) : Option Value :=
  match options.get? (name ++ "." ++ key) with
  | some .null => none
  | found => found

/-- **Options are well-formed**: different names, and those that count name a section and a field,
and give it no table. -/
structure WellFormed (options : Fields Value) : Prop where
  nodup : options.keys.Nodup
  place : ∀ field ∈ options, field.2 ≠ .null → ∃ place, splitKey? field.1 = some place
  plain : ∀ field ∈ options, field.2.fields? = none

/-- The assignment of an option. -/
def optionAssignment? (field : String × Value) : Option Assignment :=
  match field.2 with
  | .null => none
  | v => (splitKey? field.1).map fun place => (place, v)

/-- All that options assign. -/
def optionAssignments (options : Fields Value) : List Assignment :=
  options.sorted.filterMap optionAssignment?

variable {options : Fields Value}

/-- An option is an assignment when it has a value and its key names a section and a field. -/
theorem optionAssignment?_eq_some_iff {key : String} {a : Assignment} :
    optionAssignment? (key, v) = some a ↔ v ≠ .null ∧ splitKey? key = some a.1 ∧ v = a.2 := by
  obtain ⟨⟨first, second⟩, w⟩ := a
  cases v <;> simp [optionAssignment?]

/-- The value of an option is found under the joined name of section and field; null stands for an
option that was not given. -/
theorem optionValue?_eq_some_iff :
    optionValue? options name key = some v
      ↔ v ≠ .null ∧ options.get? (name ++ "." ++ key) = some v := by
  unfold optionValue?
  split
  · next hnull => simp [hnull, eq_comm]
  · next hnull =>
    refine ⟨fun hv => ⟨?_, hv⟩, And.right⟩
    rintro rfl
    exact hnull hv

/-- An option is the names of its section and its field with a point between. -/
theorem eq_of_splitKey? {place : String × String} (h : splitKey? key = some place) :
    place.1 ++ "." ++ place.2 = key := by
  unfold splitKey? at h
  split at h
  · next first second hsplit =>
    split at h
    · exact nomatch h
    · cases h
      have hwhole := Text.intercalate_splitWhere '.' key.toList
      rw [hsplit] at hwhole
      refine String.toList_inj.mp ?_
      rw [← hwhole]
      simp [List.intercalate]
  · exact nomatch h

/-- The name and the key of a field of the schema make the key of an option. -/
theorem IsField.splitKey? (h : IsField name key rule) :
    splitKey? (name ++ "." ++ key) = some (name, key) := by
  have hall : ∀ section_ ∈ schema, ∀ field ∈ section_.2,
      Settings.splitKey? (section_.1 ++ "." ++ field.1) = some (section_.1, field.1) := by
    decide
  obtain ⟨rules, hsection, hrule⟩ := h
  have hplace := hall _ hsection _ hrule
  dsimp only at hplace
  exact hplace

/-- **The layer of the command line** consists of the options that have a value, and `WellFormed`
asks their keys to name a section and a field. -/
theorem optionLayer_eq (h : WellFormed options) :
    optionLayer options = .ok (assigned [] (optionAssignments options)) := by
  refine foldlM_eq_assigned (fun layer (key, v) hfield => ?_) []
  have hmem : (key, v) ∈ options := (Fields.sorted_perm options).mem_iff.mp hfield
  cases v with
  | null => rfl
  | _ =>
    obtain ⟨place, hplace⟩ := h.place _ hmem (by simp)
    dsimp only at hplace
    simp only [optionAssignment?, hplace]
    rfl

/-- No options set nothing. -/
theorem optionLayer_empty : optionLayer [] = .ok [] := by
  rw [optionLayer, Fields.sorted, List.mergeSort_nil]
  rfl

/-- Options that are well-formed have no tables. -/
theorem optionValue?_ne_table (h : WellFormed options) (name key : String)
    (fields : Fields Value) : optionValue? options name key ≠ some (.table fields) := by
  intro hv
  have hmem := (Fields.get?_eq_some_iff h.nodup).mp (optionValue?_eq_some_iff.mp hv).2
  exact nomatch h.plain _ hmem

/-- Nor have their assignments. -/
theorem plain_options (h : WellFormed options) :
    Plain (optionAssignments options) := by
  rintro ⟨place, w⟩ ha fields rfl
  obtain ⟨⟨key, v⟩, hfield, hassignment⟩ := List.mem_filterMap.mp ha
  obtain ⟨-, -, rfl⟩ := optionAssignment?_eq_some_iff.mp hassignment
  exact nomatch h.plain _ ((Fields.sorted_perm options).mem_iff.mp hfield)

/-- **The layer of the options has at each field what its option gives.**  Splitting the key at its
point is undone by joining section and field, which needs sections without a point in their name. -/
theorem fieldAt_options (hoptions : WellFormed options) (h : IsField name key rule) :
    fieldAt (assigned [] (optionAssignments options)) name key
      = optionValue? options name key := by
  have hnodup : ((optionAssignments options).map Prod.fst).Nodup := by
    refine nodup_assignments Prod.fst (fun place => place.1 ++ "." ++ place.2)
      (fun (key, v) _ a ha => ?_) (Fields.nodup_keys_sorted hoptions.nodup)
    exact eq_of_splitKey? (optionAssignment?_eq_some_iff.mp ha).2.1
  refine Option.ext fun v => ?_
  rw [fieldAt_assigned_iff (plain_options hoptions) hnodup, optionAssignments, List.mem_filterMap]
  have hmem (key : String) (v : Value) :
      (key, v) ∈ options.sorted ↔ options.get? key = some v := by
    rw [Fields.get?_eq_some_iff hoptions.nodup, (Fields.sorted_perm options).mem_iff]
  constructor
  · rintro ⟨⟨found, w⟩, hfield, ha⟩
    obtain ⟨hnull, hplace, rfl⟩ := optionAssignment?_eq_some_iff.mp ha
    rw [← eq_of_splitKey? hplace, hmem] at hfield
    exact optionValue?_eq_some_iff.mpr ⟨hnull, hfield⟩
  · intro hv
    obtain ⟨hnull, hget⟩ := optionValue?_eq_some_iff.mp hv
    refine ⟨(name ++ "." ++ key, v), (hmem _ v).mpr hget, ?_⟩
    exact optionAssignment?_eq_some_iff.mpr ⟨hnull, h.splitKey?, rfl⟩

end RuleCatalogue.Settings

/-! ## Settings with absolute paths -/

namespace RuleCatalogue.Settings

variable {environment : Environment} {base : Path} {config placed : Fields Value}
  {name key : String} {place : String × String}

/-- **One table has the names of another**, in its sections as well; what is no section is the
same. -/
structure Alike (config placed : Fields Value) : Prop where
  names : placed.keys = config.keys
  inner : ∀ name fields, config.get? name = some (.table fields) →
    ∃ fields', placed.get? name = some (.table fields') ∧ Fields.keys fields' = Fields.keys fields
  other : ∀ name, (∀ fields, config.get? name ≠ some (.table fields)) →
    placed.get? name = config.get? name

/-- A table has its own names. -/
theorem Alike.refl (config : Fields Value) : Alike config config where
  names := rfl
  inner _ fields h := ⟨fields, h, rfl⟩
  other _ _ := rfl

/-- Having the same names carries over. -/
theorem Alike.trans {mid : Fields Value} (h : Alike config mid) (h' : Alike mid placed) :
    Alike config placed where
  names := h'.names.trans h.names
  inner name fields hget := by
    obtain ⟨fields', hmid, hkeys⟩ := h.inner name fields hget
    obtain ⟨fields'', hplaced, hkeys'⟩ := h'.inner name fields' hmid
    exact ⟨fields'', hplaced, hkeys'.trans hkeys⟩
  other name hplain := by
    have hmid := h.other name hplain
    exact (h'.other name (hmid ▸ hplain)).trans hmid

/-- Where the section is there, assigning is two insertions: the overlay of one field. -/
theorem withField_eq_insert {fields : Fields Value} {v : Value}
    (hget : config.get? name = some (.table fields)) (hv : ∀ inner, v ≠ .table inner) :
    withField config name key v
      = Fields.insert name (.table (Fields.insert key v fields)) config := by
  rw [withField, overlay, overlay, hget, overlayValue_table]
  change Fields.insert name (.table (overlay fields [(key, v)])) config = _
  rw [overlay, overlay, overlayValue_of_not_table hv]

/-- **A new value for a field that is there** changes no names, neither of sections nor inside one.
-/
theorem alike_withField {v : Value} (h : fieldAt config name key ≠ none)
    (hv : ∀ inner, v ≠ .table inner) : Alike config (withField config name key v) := by
  obtain ⟨old, hold⟩ := Option.ne_none_iff_exists'.mp h
  obtain ⟨fields, hget, hkey⟩ := fieldAt_eq_some_iff.mp hold
  rw [withField_eq_insert hget hv]
  constructor
  · exact Fields.keys_insert_of_mem (Fields.mem_keys_of_get? hget)
  · intro other inner hinner
    rw [Fields.get?_insert]
    by_cases hother : name = other
    · subst hother
      cases hget.symm.trans hinner
      exact ⟨_, if_pos rfl, Fields.keys_insert_of_mem (Fields.mem_keys_of_get? hkey)⟩
    · exact ⟨inner, (if_neg hother).trans hinner, rfl⟩
  · intro other hplain
    rw [Fields.get?_insert, if_neg]
    rintro rfl
    exact hplain fields hget

/-- The value of a path field, made absolute if it is a text. -/
def absoluteValue (environment : Environment) (base : Path) :
    Option Value → Except HomeError (Option Value)
  | some (.text raw) => (absolutePath environment base raw).map fun path => some (.text path)
  | v => .ok v

/-- **Some fields have been made absolute**, and nothing else has been changed. -/
structure Placed (environment : Environment) (base : Path) (places : List (String × String))
    (config placed : Fields Value) : Prop where
  alike : Alike config placed
  path : ∀ place ∈ places,
    absoluteValue environment base (fieldAt config place.1 place.2)
      = .ok (fieldAt placed place.1 place.2)
  rest : ∀ name key, (name, key) ∉ places → fieldAt placed name key = fieldAt config name key

/-- One field is made absolute by giving it a new value. -/
theorem absoluteField_of_text {raw : String}
    (h : fieldAt config place.1 place.2 = some (.text raw)) :
    absoluteField environment base config place
      = (absolutePath environment base raw).map fun path =>
          withField config place.1 place.2 (.text path) := by
  obtain ⟨fields, hget, hkey⟩ := fieldAt_eq_some_iff.mp h
  have hset (path : String) : withField config place.1 place.2 (.text path)
      = Fields.insert place.1 (.table (Fields.insert place.2 (.text path) fields)) config :=
    withField_eq_insert hget (by rintro _ ⟨⟩)
  simp only [absoluteField, hget, hkey, hset]

/-- A field that is missing or no text is left alone, since only the validation that follows has
something to say about it. -/
theorem absoluteField_of_not_text
    (h : ∀ raw, fieldAt config place.1 place.2 ≠ some (.text raw)) :
    absoluteField environment base config place = .ok config := by
  unfold absoluteField
  split
  · next fields hget =>
    split
    · next raw hraw => exact absurd ((fieldAt_of_get? hget).trans hraw) (h raw)
    · rfl
  · rfl

/-- **One field** is made absolute, unless there is no home directory for it, and then the error is
that of `absolutePath` for its text. -/
theorem absoluteField_placed (place : String × String) :
    Fallible (fun e => absoluteValue environment base (fieldAt config place.1 place.2) = .error e)
      (Placed environment base [place] config) (absoluteField environment base config place) := by
  by_cases h : ∃ raw, fieldAt config place.1 place.2 = some (.text raw)
  · obtain ⟨raw, hraw⟩ := h
    rw [absoluteField_of_text hraw, hraw, absoluteValue]
    cases hpath : absolutePath environment base raw with
    | error e => rfl
    | ok path =>
      have hv : ∀ inner, Value.text path ≠ .table inner := by rintro _ ⟨⟩
      constructor
      · exact alike_withField (by simp [hraw]) hv
      · intro other hother
        obtain rfl := List.mem_singleton.mp hother
        rw [hraw, absoluteValue, hpath, fieldAt_withField _ _ _ hv, if_pos rfl]
        rfl
      · intro name key hother
        rw [fieldAt_withField _ _ _ hv, if_neg fun e => hother (by simp [e])]
  · have hplain : ∀ raw, fieldAt config place.1 place.2 ≠ some (.text raw) :=
      fun raw hraw => h ⟨raw, hraw⟩
    rw [absoluteField_of_not_text hplain]
    refine ⟨Alike.refl config, fun other hother => ?_, fun _ _ _ => rfl⟩
    obtain rfl := List.mem_singleton.mp hother
    unfold absoluteValue
    split
    · next raw hraw => exact absurd hraw (hplain raw)
    · rfl

/-- **Different fields, one after another.** `nodup` keeps a later step from changing the text that
an earlier one has made absolute. -/
theorem foldlM_absoluteField_placed {places : List (String × String)} (nodup : places.Nodup) :
    Fallible
      (fun e => ∃ place ∈ places,
        absoluteValue environment base (fieldAt config place.1 place.2) = .error e)
      (Placed environment base places config)
      (places.foldlM (absoluteField environment base) config) := by
  induction places generalizing config with
  | nil => exact ⟨Alike.refl config, fun _ h => (nomatch h), fun _ _ _ => rfl⟩
  | cons place others ih =>
    obtain ⟨hfresh, hnodup⟩ := List.nodup_cons.mp nodup
    rw [List.foldlM_cons]
    refine ((absoluteField_placed place).mono ?_ fun _ h => h).bind fun mid hmid => ?_
    · intro e he
      exact ⟨place, List.mem_cons_self, he⟩
    · -- The other fields are still as they were, for the first one is not among them.
      have hkept : ∀ other ∈ others,
          fieldAt mid other.1 other.2 = fieldAt config other.1 other.2 := by
        intro other hother
        refine hmid.rest other.1 other.2 fun hmem => hfresh ?_
        exact List.mem_singleton.mp hmem ▸ hother
      refine (ih hnodup).mono ?_ fun placed hplaced => ?_
      · rintro e ⟨other, hother, he⟩
        exact ⟨other, List.mem_cons_of_mem place hother, hkept other hother ▸ he⟩
      · constructor
        · exact hmid.alike.trans hplaced.alike
        · intro other hother
          rcases List.mem_cons.mp hother with rfl | hother
          · rw [hplaced.rest other.1 other.2 hfresh]
            exact hmid.path other List.mem_cons_self
          · rw [← hkept other hother]
            exact hplaced.path other hother
        · intro name key hother
          have hne : (name, key) ∉ [place] := fun h =>
            hother (List.mem_cons.mpr (Or.inl (List.mem_singleton.mp h)))
          rw [hplaced.rest name key fun h => hother (List.mem_cons_of_mem place h),
            hmid.rest name key hne]

/-- **Making paths absolute** changes the path fields alone, unless there is no home directory for
one of them.  `Placed` says it of the fields; `Placed.eq_mapPaths` says it of the whole table. -/
theorem absolutePaths_placed :
    Fallible
      (fun e => ∃ place ∈ pathFields,
        absoluteValue environment base (fieldAt config place.1 place.2) = .error e)
      (Placed environment base pathFields config) (absolutePaths environment base config) :=
  foldlM_absoluteField_placed (by decide)

/-- It succeeds if every path field can be made absolute. -/
theorem exists_absolutePaths_iff :
    (∃ placed, absolutePaths environment base config = .ok placed)
      ↔ ∀ place ∈ pathFields, ∃ v,
          absoluteValue environment base (fieldAt config place.1 place.2) = .ok v := by
  constructor
  · rintro ⟨placed, h⟩ place hplace
    exact ⟨_, (absolutePaths_placed.of_ok h).path place hplace⟩
  · intro h
    cases hresult : absolutePaths environment base config with
    | ok placed => exact ⟨placed, rfl⟩
    | error e =>
      obtain ⟨place, hplace, he⟩ := absolutePaths_placed.of_error hresult
      obtain ⟨v, hv⟩ := h place hplace
      rw [hv] at he
      exact nomatch he

end RuleCatalogue.Settings
