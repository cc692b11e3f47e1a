import RuleCatalogue.Table

/-!
# Laws of tables

A table is determined by its names in order and by the value at each of them (`Table.ext_get?`),
and insertion is described by what it does to these two: `keys_insert` and `get?_insert`.  Later
proofs speak of tables in these terms and never open the list of fields.

## Main results

* `Table.keys_insert` and `Table.get?_insert`: what insertion does to names and answers.
* `Table.ext_get?`: tables with the same names in the same order and the same answers are equal.
* `Fields.get?_sorted` and `Fields.pairwise_keys_sorted`: sorting by names.
* `Table.keys_joinWith` and `Table.get?_joinWith`: two tables put together, with a rule for the
  names that both have.

## Design notes

`Fields` is the bare list and `Table` the list with the proof that no name is repeated.  Laws that
need the proof ask for it as `nodup` on the left side and get it from the structure on the right.
-/

namespace RuleCatalogue

namespace Fields

variable {α : Type}

/-- The names of two lists of fields. -/
@[simp] theorem keys_append (first second : Fields α) :
    keys (first ++ second) = keys first ++ keys second :=
  List.map_append

/-- Changing values changes no name. -/
@[simp] theorem keys_mapValues {β : Type} (f : String → α → β) (fields : Fields α) :
    keys (fields.map fun field => (field.1, f field.1 field.2)) = keys fields := by
  simp [keys, Function.comp_def]

/-- Fields that are chosen by their names. -/
@[simp] theorem keys_filter (p : String → Bool) (fields : Fields α) :
    keys (fields.filter fun field => p field.1) = (keys fields).filter p := by
  simp [keys, List.filter_map, Function.comp_def]

/-- An inserted field is found under its name, and hides nothing else. -/
theorem get?_insert (key name : String) (value : α) (fields : Fields α) :
    get? name (insert key value fields) = if key = name then some value else get? name fields := by
  induction fields with
  | nil => simp [insert, get?]
  | cons field rest ih =>
    obtain ⟨first, old⟩ := field
    by_cases hfirst : first = key
    · by_cases hname : key = name <;> simp [insert, get?, hfirst, hname]
    · by_cases hname : first = name
      · subst hname
        simp [insert, get?, hfirst, Ne.symm hfirst]
      · simp [insert, get?, hfirst, hname, ih]

/-- Nothing is found where the name is missing. -/
theorem get?_eq_none_iff {name : String} {fields : Fields α} :
    get? name fields = none ↔ name ∉ keys fields := by
  induction fields with
  | nil => simp [get?, keys]
  | cons field rest ih =>
    obtain ⟨first, value⟩ := field
    by_cases h : first = name
    · simp [get?, keys, h]
    · have hne : name ≠ first := Ne.symm h
      simp only [keys] at ih
      simp [get?, keys, h, hne, ih]

/-- What is found has a name. -/
theorem mem_keys_of_get? {name : String} {value : α} {fields : Fields α}
    (h : get? name fields = some value) : name ∈ keys fields := by
  refine Decidable.not_not.mp fun hfresh => ?_
  rw [get?_eq_none_iff.mpr hfresh] at h
  cases h

/-- The field in front counts. -/
theorem get?_append (name : String) (first second : Fields α) :
    get? name (first ++ second) = (get? name first).or (get? name second) := by
  induction first with
  | nil => simp [get?]
  | cons field rest ih =>
    obtain ⟨key, value⟩ := field
    by_cases h : key = name
    · simp [get?, h]
    · simpa [get?, h] using ih

/-- Values are changed where they are found. -/
theorem get?_mapValues {β : Type} (f : String → α → β) (name : String) (fields : Fields α) :
    get? name (fields.map fun field => (field.1, f field.1 field.2))
      = (get? name fields).map (f name) := by
  induction fields with
  | nil => rfl
  | cons field rest ih =>
    obtain ⟨key, value⟩ := field
    by_cases h : key = name
    · simp [get?, h]
    · simpa [get?, h] using ih

/-- Fields that are chosen by their names are found if their name is chosen. -/
theorem get?_filter (p : String → Bool) (name : String) (fields : Fields α) :
    get? name (fields.filter fun field => p field.1)
      = if p name then get? name fields else none := by
  induction fields with
  | nil => simp [get?]
  | cons field rest ih =>
    obtain ⟨key, value⟩ := field
    by_cases hp : p key
    · by_cases h : key = name
      · simp [get?, h ▸ hp, h]
      · simp [get?, hp, h, ih]
    · by_cases h : key = name
      · simp [hp, ih, h ▸ hp]
      · simp [get?, hp, h, ih]

/-- An erased field is not found, and the others are. -/
theorem get?_erase (key name : String) (fields : Fields α) :
    get? name (erase key fields) = if name = key then none else get? name fields := by
  have hfilter := get?_filter (fun first => decide (first ≠ key)) name fields
  rw [erase, hfilter]
  by_cases h : name = key <;> simp [h]

/-- The value that filtering leaves at a name, where no name stands twice. -/
theorem get?_filterMap {β : Type} (f : String → α → Option β) {fields : Fields α}
    (nodup : (keys fields).Nodup) (name : String) :
    get? name (fields.filterMap fun field => (f field.1 field.2).map (field.1, ·))
      = (get? name fields).bind (f name) := by
  induction fields with
  | nil => rfl
  | cons field rest ih =>
    obtain ⟨first, value⟩ := field
    obtain ⟨hfresh, hnodup⟩ := List.nodup_cons.mp nodup
    by_cases h : first = name
    · subst h
      have hrest : get? first rest = none := get?_eq_none_iff.mpr hfresh
      cases hvalue : f first value with
      | none => simp [hvalue, ih hnodup, hrest, get?]
      | some v => simp [hvalue, get?]
    · cases hvalue : f first value with
      | none => simp [hvalue, ih hnodup, h, get?]
      | some v => simp [hvalue, ih hnodup, h, get?]

/-- Where no value is refused, no name gets lost. -/
theorem keys_filterMap {β : Type} {f : String → α → Option β} {fields : Fields α}
    (all : ∀ field ∈ fields, (f field.1 field.2).isSome) :
    keys (fields.filterMap fun field => (f field.1 field.2).map (field.1, ·)) = keys fields := by
  induction fields with
  | nil => rfl
  | cons field rest ih =>
    obtain ⟨v, hv⟩ := Option.isSome_iff_exists.mp (all field List.mem_cons_self)
    have hrest := ih fun other h => all other (List.mem_cons_of_mem _ h)
    rw [List.filterMap_cons, hv]
    exact congrArg (field.1 :: ·) hrest

/-- A name that is new goes to the end. -/
theorem insert_of_not_mem {key : String} {value : α} {fields : Fields α} (h : key ∉ keys fields) :
    insert key value fields = fields ++ [(key, value)] := by
  induction fields with
  | nil => rfl
  | cons field rest ih =>
    obtain ⟨first, old⟩ := field
    have hfirst : first ≠ key := fun e => h (by simp [keys, e])
    have hrest : key ∉ keys rest := fun m => h (List.mem_cons_of_mem first m)
    rw [insert, if_neg hfirst, ih hrest, List.cons_append]

/-- Pairs whose names are all different are the fields that they leave. -/
theorem ofList_of_nodup {pairs : Fields α} (nodup : (keys pairs).Nodup) : ofList pairs = pairs := by
  have hall (done rest : Fields α) (h : (keys (done ++ rest)).Nodup) :
      rest.foldl (fun fields field => insert field.1 field.2 fields) done = done ++ rest := by
    induction rest generalizing done with
    | nil => simp
    | cons field rest ih =>
      obtain ⟨key, value⟩ := field
      have hfresh : key ∉ keys done := by
        rw [keys_append] at h
        exact fun hdone => (List.nodup_append.mp h).2.2 _ hdone _ List.mem_cons_self rfl
      rw [List.append_cons] at h
      rw [List.append_cons, ← ih _ h, ← insert_of_not_mem hfresh]
      rfl
  exact hall [] pairs nodup

/-- Where names differ, finding a value is having the field. -/
theorem get?_eq_some_iff {name : String} {value : α} {fields : Fields α}
    (nodup : (keys fields).Nodup) : get? name fields = some value ↔ (name, value) ∈ fields := by
  induction fields with
  | nil => simp [get?]
  | cons field rest ih =>
    obtain ⟨first, found⟩ := field
    obtain ⟨hfresh, hnodup⟩ := List.nodup_cons.mp nodup
    rw [get?, List.mem_cons]
    split
    · next hfirst =>
      subst hfirst
      have hrest : (first, value) ∉ rest := fun h => hfresh (List.mem_map.mpr ⟨_, h, rfl⟩)
      simp [hrest, eq_comm]
    · next hfirst =>
      have hne : name ≠ first := fun e => hfirst e.symm
      simp [ih hnodup, hne]

/-- A name that is not repeated is counted where its value is. -/
theorem countP_name {fields : Fields α} (nodup : (keys fields).Nodup) (name : String)
    (p : α → Bool) :
    fields.countP (fun field => field.1 == name && p field.2)
      = ((get? name fields).any p).toNat := by
  induction fields with
  | nil => rfl
  | cons field rest ih =>
    obtain ⟨first, value⟩ := field
    obtain ⟨hfresh, hnodup⟩ := List.nodup_cons.mp nodup
    rw [List.countP_cons, ih hnodup]
    by_cases hname : first = name
    · subst hname
      rw [get?_eq_none_iff.mpr hfresh]
      cases hp : p value <;> simp [get?, hp]
    · simp [get?, hname]

/-- Names get lost with the values that are refused, and keep their order. -/
theorem keys_filterMap_sublist {β : Type} (f : String → α → Option β) (fields : Fields α) :
    (keys (fields.filterMap fun field => (f field.1 field.2).map (field.1, ·))).Sublist
      (keys fields) := by
  induction fields with
  | nil => exact .slnil
  | cons field rest ih =>
    rw [List.filterMap_cons]
    cases f field.1 field.2 with
    | none => exact ih.cons _
    | some value => exact ih.cons_cons _

/-- Names that differ do so after a choice. -/
theorem nodup_keys_filter (p : String × α → Bool) {fields : Fields α} (h : (keys fields).Nodup) :
    (keys (fields.filter p)).Nodup :=
  h.sublist (List.filter_sublist.map Prod.fst)

/-! ### Fields over fields -/

/-- **Fields with others inserted over them.** -/
def insertAll (base more : Fields α) : Fields α :=
  more.foldl (fun fields field => insert field.1 field.2 fields) base

/-- Inserting keeps names different. -/
theorem nodup_keys_insertAll {base : Fields α} (h : (keys base).Nodup) (more : Fields α) :
    (keys (insertAll base more)).Nodup := by
  induction more generalizing base with
  | nil => exact h
  | cons field rest ih => exact ih (nodup_keys_insert h)

/-- What is inserted later counts, if its names differ. -/
theorem get?_insertAll {more : Fields α} (hmore : (keys more).Nodup) (base : Fields α)
    (name : String) : get? name (insertAll base more) = (get? name more).or (get? name base) := by
  induction more generalizing base with
  | nil => rfl
  | cons field rest ih =>
    obtain ⟨key, value⟩ := field
    obtain ⟨hfresh, hrest⟩ := List.nodup_cons.mp hmore
    have htail := ih hrest (insert key value base)
    rw [get?_insert] at htail
    show get? name (insertAll (insert key value base) rest) = _
    rw [htail, get?]
    split
    · next heq =>
      have hnone : get? name rest = none := get?_eq_none_iff.mpr (heq ▸ hfresh)
      rw [hnone]
      rfl
    · rfl

/-! ### Fields in the order of their names -/

/-- Sorting by name keeps the fields. -/
theorem sorted_perm (fields : Fields α) : (sorted fields).Perm fields :=
  List.mergeSort_perm fields _

/-- Sorting fields by name sorts their names. -/
theorem keys_sorted (fields : Fields α) :
    keys (sorted fields) = (keys fields).mergeSort fun a b => decide (a ≤ b) :=
  List.map_mergeSort fun _ _ _ _ => rfl

/-- Names that differ do so in any order. -/
theorem nodup_keys_sorted {fields : Fields α} (nodup : (keys fields).Nodup) :
    (keys (sorted fields)).Nodup :=
  ((sorted_perm fields).map Prod.fst).nodup_iff.mpr nodup

/-- Names that are not repeated increase when they are sorted. -/
theorem pairwise_keys_sorted {fields : Fields α} (nodup : (keys fields).Nodup) :
    (keys (sorted fields)).Pairwise (· < ·) := by
  have hsorted : (keys (sorted fields)).Pairwise fun a b => decide (a ≤ b) = true := by
    rw [keys_sorted]
    refine List.pairwise_mergeSort (fun a b c hab hbc => ?_) (fun a b => ?_) _
    · exact decide_eq_true (String.le_trans (of_decide_eq_true hab) (of_decide_eq_true hbc))
    · simpa using String.le_total a b
  refine hsorted.imp₂ (fun a b hle hne => ?_) (nodup_keys_sorted nodup)
  refine Decidable.byContradiction fun hlt => hne ?_
  exact String.le_antisymm (of_decide_eq_true hle) (String.not_lt.mp hlt)

/-- Sorting moves the fields and changes none. -/
theorem get?_sorted {fields : Fields α} (nodup : (keys fields).Nodup) (name : String) :
    get? name (sorted fields) = get? name fields := by
  refine Option.ext fun value => ?_
  rw [get?_eq_some_iff nodup, get?_eq_some_iff (nodup_keys_sorted nodup)]
  exact (sorted_perm fields).mem_iff

/-- **A table is what it answers**: its names in order and the value at each.  The answers alone do
not determine it, since they forget the order. -/
theorem ext_get? {first second : Fields α} (nodup : (keys first).Nodup)
    (hkeys : keys first = keys second) (hget : ∀ name, get? name first = get? name second) :
    first = second := by
  induction first generalizing second with
  | nil =>
    cases second with
    | nil => rfl
    | cons field rest => simp [keys] at hkeys
  | cons field rest ih =>
    cases second with
    | nil => simp [keys] at hkeys
    | cons field' rest' =>
      obtain ⟨key, value⟩ := field
      obtain ⟨key', value'⟩ := field'
      simp only [keys, List.map_cons, List.cons.injEq] at hkeys
      obtain ⟨rfl, hrest⟩ := hkeys
      have hvalue : value = value' := by simpa [get?] using hget key
      obtain ⟨hfresh, hnodup⟩ := List.nodup_cons.mp nodup
      have htail : rest = rest' := by
        refine ih hnodup hrest fun name => ?_
        by_cases h : key = name
        · -- The first name occurs in neither rest, since names are not repeated.
          subst h
          rw [get?_eq_none_iff.mpr hfresh, get?_eq_none_iff.mpr]
          exact fun m => hfresh (hrest ▸ m)
        · simpa [get?, h] using hget name
      rw [hvalue, htail]

end Fields

namespace Table

variable {α : Type}

/-- The empty table has no names. -/
@[simp] theorem keys_empty : (∅ : Table α).keys = [] := rfl

/-- The empty table answers nothing. -/
@[simp] theorem get?_empty (name : String) : (∅ : Table α).get? name = none := rfl

/-- A table answers nothing to a name that it has not. -/
theorem get?_eq_none_iff {table : Table α} {name : String} :
    table.get? name = none ↔ name ∉ table.keys :=
  Fields.get?_eq_none_iff

/-- A table contains the names that it has. -/
theorem contains_iff {table : Table α} {name : String} :
    table.contains name ↔ name ∈ table.keys := by
  rw [contains, Fields.has, Option.isSome_iff_ne_none, ne_eq, Fields.get?_eq_none_iff,
    Decidable.not_not]
  rfl

/-- An inserted value is the answer to its name, and to no other one. -/
theorem get?_insert (table : Table α) (key name : String) (value : α) :
    (table.insert key value).get? name = if key = name then some value else table.get? name :=
  Fields.get?_insert key name value table.fields

/-- An inserted value is found. -/
@[simp] theorem get?_insert_self (table : Table α) (key : String) (value : α) :
    (table.insert key value).get? key = some value := by
  simp [get?_insert]

/-- **Insertion keeps the order of the names**: a new name goes to the end, and one that is present
stays where it is, as in an ordered dictionary. -/
theorem keys_insert (table : Table α) (key : String) (value : α) :
    (table.insert key value).keys =
      if key ∈ table.keys then table.keys else table.keys ++ [key] := by
  by_cases h : key ∈ table.keys
  · rw [if_pos h]
    exact Fields.keys_insert_of_mem h
  · rw [if_neg h]
    exact Fields.keys_insert_of_not_mem h

/-- A new name goes to the end. -/
theorem fields_insert_of_not_mem {table : Table α} {key : String} (h : key ∉ table.keys)
    (value : α) : (table.insert key value).fields = table.fields ++ [(key, value)] :=
  Fields.insert_of_not_mem h

/-- **A table is what it answers**: its names in order and the value at each. -/
theorem ext_get? {first second : Table α} (hkeys : first.keys = second.keys)
    (hget : ∀ name, first.get? name = second.get? name) : first = second := by
  obtain ⟨fields, nodup⟩ := first
  obtain ⟨fields', nodup'⟩ := second
  have hfields : fields = fields' := Fields.ext_get? nodup hkeys hget
  subst hfields
  rfl

/-! ### One table after another -/

/-- **Two tables joined**: the names of `earlier` keep their places and those that are new in
`later` come behind them; where both have a value, the two are combined. -/
def joinWith (combine : α → α → α) (earlier later : Table α) : Table α where
  fields :=
    earlier.fields.map (fun field =>
      (field.1, ((later.get? field.1).map (combine field.2)).getD field.2))
      ++ later.fields.filter fun field => field.1 ∉ earlier.keys
  nodup := by
    rw [Fields.keys_append,
      Fields.keys_mapValues fun name value => ((later.get? name).map (combine value)).getD value,
      Fields.keys_filter fun name => decide (name ∉ earlier.keys)]
    refine List.nodup_append.mpr ⟨earlier.nodup, later.nodup.filter _, ?_⟩
    rintro name hname _ hother rfl
    exact absurd hname (of_decide_eq_true (List.mem_filter.mp hother).2)

variable (combine : α → α → α) (earlier later : Table α)

/-- Names of the later table that are new go to the end, in their order. -/
theorem keys_joinWith :
    (joinWith combine earlier later).keys
      = earlier.keys ++ later.keys.filter fun name => name ∉ earlier.keys := by
  have hearlier := Fields.keys_mapValues
    (fun name value => ((later.get? name).map (combine value)).getD value) earlier.fields
  have hlater := Fields.keys_filter (fun name => decide (name ∉ earlier.keys)) later.fields
  rw [keys, joinWith, Fields.keys_append, hearlier, hlater]
  rfl

/-- A joined table combines what both know of a name, and answers with the one that knows it
otherwise. -/
theorem get?_joinWith (name : String) :
    (joinWith combine earlier later).get? name =
      ((earlier.get? name).map fun value =>
        ((later.get? name).map (combine value)).getD value).or (later.get? name) := by
  have hearlier := Fields.get?_mapValues
    (fun name value => ((later.get? name).map (combine value)).getD value) name earlier.fields
  have hlater := Fields.get?_filter (fun name => decide (name ∉ earlier.keys)) name later.fields
  rw [get?, joinWith, Fields.get?_append, hearlier, hlater]
  cases h : earlier.get? name with
  | none =>
    have hfresh : name ∉ earlier.keys := get?_eq_none_iff.mp h
    have hfields : Fields.get? name earlier.fields = none := h
    simp [hfields, hfresh, get?]
  | some value =>
    have hfields : Fields.get? name earlier.fields = some value := h
    simp [hfields]

end Table

end RuleCatalogue
