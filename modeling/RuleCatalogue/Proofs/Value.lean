import Mathlib.Data.Bool.AllAny
import Mathlib.Data.List.Forall2
import RuleCatalogue.Json
import RuleCatalogue.Proofs.Decimal
import RuleCatalogue.Proofs.Table
import RuleCatalogue.Toml.Reader

/-!
# Values and their parts

JSON and TOML share texts, truth values, integers that are short enough, lists of such values and
tables of them with different names, and each of the two reads back what it has written of them.
The writers sort the names of all tables first, which leaves such a value one
(`Value.Portable.withSortedNames`) and changes no answer of a table (`get?_sortNames`).

The parts of a value are what stands inside it, at any depth.  Much holds of a value because it
holds of its parts.

## Main definitions

* `Value.parts` lists the parts of a value, itself among them.
* `Value.Regular` and `Value.isUnsupported` judge one part, whatever stands inside it.
* `Value.Same` says that two values differ in nothing but the order of names.

## Main results

* `Value.portable_of_parts`: a value is portable if its parts are regular and none is unsupported.
* `Value.mem_parts_withSortedNames`: sorting the names of a value sorts those of its parts.
* `Value.Portable.same_withSortedNames`: sorting the names of a value leaves it the same value.

## Design notes

A mapping counts as one part, whatever its entries: it is no regular part, and sorting names leaves
it alone.
-/

/-! ## Values that every format holds -/

namespace RuleCatalogue

/-- The sorting of an array's items is a map; the definition recurses beside that of values. -/
theorem sortNamesInItems_eq_map (items : List Value) :
    sortNamesInItems items = items.map Value.withSortedNames := by
  induction items with
  | nil => rfl
  | cons v rest ih => rw [sortNamesInItems, ih, List.map_cons]

/-- The sorting inside a table's fields is a map that keeps each name. -/
theorem sortNamesInFields_eq_map (fields : Fields Value) :
    sortNamesInFields fields = fields.map fun field => (field.1, field.2.withSortedNames) := by
  induction fields with
  | nil => rfl
  | cons field rest ih => rw [sortNamesInFields, ih, List.map_cons]

/-- Sorting inside the fields leaves the table's own names in their order. -/
theorem keys_sortNamesInFields (fields : Fields Value) :
    Fields.keys (sortNamesInFields fields) = fields.keys := by
  rw [sortNamesInFields_eq_map]
  exact Fields.keys_mapValues (fun _ v => v.withSortedNames) fields

namespace Value

/-- A text has no names. -/
@[simp] theorem withSortedNames_text (s : String) : (text s).withSortedNames = text s := by
  rw [withSortedNames]
  all_goals exact fun _ h => nomatch h

/-- An array keeps the order of its items. -/
theorem withSortedNames_list (items : List Value) :
    (list items).withSortedNames = list (items.map withSortedNames) := by
  rw [withSortedNames, sortNamesInItems_eq_map]

/-- The fields of a table whose names are sorted, inside its values as well. -/
def sortNames (fields : Fields Value) : Fields Value :=
  Fields.sorted (sortNamesInFields fields)

/-- A table's own names are sorted after those inside its fields. -/
@[simp] theorem withSortedNames_table (fields : Fields Value) :
    (table fields).withSortedNames = table (sortNames fields) := by
  rw [withSortedNames]
  rfl

/-- Sorting repeats no name. -/
theorem nodup_keys_sortNames {fields : Fields Value} (nodup : fields.keys.Nodup) :
    (Fields.keys (sortNames fields)).Nodup := by
  rw [← keys_sortNamesInFields] at nodup
  exact Fields.nodup_keys_sorted nodup

/-- What a name has in the sorted table is what it had, sorted.  With repeated names the first might
not stay the first, hence the hypothesis. -/
theorem get?_sortNames {fields : Fields Value} (nodup : fields.keys.Nodup) (name : String) :
    (sortNames fields).get? name = (fields.get? name).map withSortedNames := by
  rw [← keys_sortNamesInFields] at nodup
  rw [sortNames, Fields.get?_sorted nodup, sortNamesInFields_eq_map]
  exact Fields.get?_mapValues (fun _ v => v.withSortedNames) name fields

/-- The fields of the sorted table are those of the table, each sorted. -/
theorem mem_sortNames {fields : Fields Value} {field : String × Value} :
    field ∈ sortNames fields
      ↔ ∃ old ∈ fields, (old.1, old.2.withSortedNames) = field := by
  rw [sortNames, (Fields.sorted_perm _).mem_iff, sortNamesInFields_eq_map, List.mem_map]

/-- A list can be written if its items can. -/
theorem isWritable_list_iff {items : List Value} :
    (list items).isWritable ↔ ∀ v ∈ items, v.isWritable := by
  rw [isWritable]
  induction items with
  | nil => simp [areWritable]
  | cons v rest ih => rw [areWritable, Bool.and_eq_true, ih, List.forall_mem_cons]

/-- A table can be written if its values can. -/
theorem isWritable_table_iff {fields : Fields Value} :
    (table fields).isWritable ↔ ∀ field ∈ fields, field.2.isWritable := by
  rw [isWritable]
  induction fields with
  | nil => simp [haveWritable]
  | cons field rest ih => rw [haveWritable, Bool.and_eq_true, ih, List.forall_mem_cons]

/-- **A value that every format holds.** -/
inductive Portable : Value → Prop
  | text (s : String) : Portable (.text s)
  | bool (b : Bool) : Portable (.bool b)
  | int (n : Int) (short : Decimal.Short n) : Portable (.int n)
  | list (items : List Value) (all : ∀ v ∈ items, Portable v) : Portable (.list items)
  | table (fields : Fields Value) (nodup : fields.keys.Nodup)
      (all : ∀ field ∈ fields, Portable field.2) : Portable (.table fields)

/-- Sorting names keeps a value portable, since being portable asks about the leaves and about names
being different. -/
theorem Portable.withSortedNames {v : Value} (h : Portable v) : Portable v.withSortedNames := by
  induction h with
  | text s =>
    rw [withSortedNames_text]
    exact .text s
  | bool b => exact .bool b
  | int n short => exact .int n short
  | list items all ih =>
    rw [withSortedNames_list]
    refine .list _ fun v hv => ?_
    obtain ⟨old, hold, rfl⟩ := List.mem_map.mp hv
    exact ih old hold
  | table fields nodup all ih =>
    rw [withSortedNames_table]
    refine .table _ (nodup_keys_sortNames nodup) fun field hfield => ?_
    obtain ⟨old, hold, rfl⟩ := mem_sortNames.mp hfield
    exact ih old hold

/-! ## The edges of a written value -/

/-- **Nothing follows that could belong to a value**: the text is at its end, or goes on with a
separator, a blank or the end of a list. -/
def Ended (rest : List Char) : Prop :=
  ∀ c ∈ rest.head?, c ∈ [',', ']', ' ', '\n']

/-- The end of the text ends a value. -/
theorem ended_nil : Ended [] := by
  intro c hc
  cases hc

/-- To find that no character of a kind comes next, four characters have to be tried. -/
theorem Ended.false_of_all {rest : List Char} (h : Ended rest) {p : Char → Bool}
    (hp : [',', ']', ' ', '\n'].all fun c => !p c) : ∀ c ∈ rest.head?, p c = false :=
  fun c hc => by simpa using List.all_eq_true.mp hp c (h c hc)

/-- **A text that begins as a value does**: neither with white space, nor with a comment, nor with
the end of a list or a table. -/
def Begun (s : List Char) : Prop :=
  ∃ c ∈ s.head?, c ∉ [' ', '\t', '\n', '\r', '#', ']', '\x7d']

/-- What begins a value does so whatever stands behind it. -/
theorem Begun.append {s : List Char} (h : Begun s) (rest : List Char) : Begun (s ++ rest) := by
  obtain ⟨c, hc, hbegins⟩ := h
  refine ⟨c, ?_, hbegins⟩
  rw [List.head?_append, Option.mem_def.mp hc]
  rfl

/-- The characters that are skipped before a value, and those that close a compound, begin none. -/
theorem not_begun_cons {c : Char} (h : c ∈ [' ', '\t', '\n', '\r', '#', ']', '\x7d'])
    (rest : List Char) : ¬ Begun (c :: rest) := by
  rintro ⟨d, hd, hbegins⟩
  cases hd
  exact hbegins h

/-- A text that begins as a value has a first character. -/
theorem Begun.exists_eq_cons {s : List Char} (h : Begun s) :
    ∃ c rest, s = c :: rest ∧ c ∉ [' ', '\t', '\n', '\r', '#', ']', '\x7d'] := by
  obtain ⟨c, hc, hbegins⟩ := h
  cases s with
  | nil => exact nomatch hc
  | cons d rest =>
    cases hc
    exact ⟨c, rest, rfl, hbegins⟩

/-- An integer begins as a value does. -/
theorem begun_toString (n : Int) : Begun (toString n).toList := by
  obtain ⟨c, more, hcons, hc⟩ := Decimal.exists_toString_eq_cons n
  rw [hcons]
  refine ⟨c, rfl, fun h => ?_⟩
  have hnone : ∀ c ∈ [' ', '\t', '\n', '\r', '#', ']', '\x7d'],
      (c == '-' || c.isDigit) = false :=
    List.all_iff_forall_prop.mp (by decide)
  rw [hnone c h] at hc
  exact absurd hc (by decide)

end Value

/-- Pieces with separators hold the characters of both. -/
theorem Json.mem_separated {separator : List Char} {pieces : List (List Char)} {c : Char}
    (h : c ∈ separated separator pieces) : c ∈ separator ∨ ∃ piece ∈ pieces, c ∈ piece := by
  induction pieces with
  | nil => exact nomatch h
  | cons piece rest ih =>
    cases rest with
    | nil => exact Or.inr ⟨piece, List.mem_cons_self, h⟩
    | cons next rest =>
      rw [separated, List.mem_append, List.mem_append] at h
      · rcases h with (h | h) | h
        · exact Or.inr ⟨piece, List.mem_cons_self, h⟩
        · exact Or.inl h
        · refine (ih h).imp_right fun ⟨other, hother, hc⟩ => ?_
          exact ⟨other, List.mem_cons_of_mem piece hother, hc⟩
      · exact fun h => nomatch h

/-- Pieces with separators begin with the first piece. -/
theorem Json.exists_separated_cons_eq (separator piece : List Char) (rest : List (List Char)) :
    ∃ more, separated separator (piece :: rest) = piece ++ more := by
  cases rest with
  | nil => exact ⟨[], (List.append_nil piece).symm⟩
  | cons next rest => exact ⟨_, List.append_assoc ..⟩

end RuleCatalogue

/-! ## The parts of a value -/

namespace RuleCatalogue.Value

open Toml (isCompound)

variable {v part : Value} {items : List Value} {fields : Fields Value}

/-! ## Induction -/

/-- An item is smaller than its array, for recursion over the items with membership. -/
theorem sizeOf_lt_list (h : v ∈ items) : sizeOf v < sizeOf (list items) := by
  have hlt := List.sizeOf_lt_of_mem h
  simp only [list.sizeOf_spec]
  omega

/-- A field's value is smaller than its table. -/
theorem sizeOf_lt_table {field : String × Value} (h : field ∈ fields) :
    sizeOf field.2 < sizeOf (table fields) := by
  have hlt := List.sizeOf_lt_of_mem h
  have hvalue : sizeOf field = 1 + sizeOf field.1 + sizeOf field.2 := by cases field; rfl
  simp only [table.sizeOf_spec]
  omega

/-- **Induction over a value**: a list and a table have what holds of all that stands directly
inside them. -/
@[elab_as_elim]
theorem inductionOn {motive : Value → Prop} (leaf : ∀ v, isCompound v = false → motive v)
    (list : ∀ items, (∀ v ∈ items, motive v) → motive (.list items))
    (table : ∀ fields : Fields Value, (∀ field ∈ fields, motive field.2) → motive (.table fields)) :
    ∀ v, motive v
  | .list items => list items fun v _ => inductionOn leaf list table v
  | .table fields => table fields fun field _ => inductionOn leaf list table field.2
  | .null => leaf _ rfl
  | .bool _ => leaf _ rfl
  | .int _ => leaf _ rfl
  | .float _ => leaf _ rfl
  | .text _ => leaf _ rfl
  | .mapping _ => leaf _ rfl
  | .other _ _ => leaf _ rfl
termination_by v => sizeOf v
decreasing_by
  · exact sizeOf_lt_list (by assumption)
  · exact sizeOf_lt_table (by assumption)

/-! ## Parts -/

mutual

/-- **The parts of a value**: itself, and the parts of what stands inside it. -/
def parts : Value → List Value
  | list items => list items :: partsOfItems items
  | table fields => table fields :: partsOfFields fields
  | v => [v]

/-- The parts of list items. -/
def partsOfItems : List Value → List Value
  | [] => []
  | v :: rest => v.parts ++ partsOfItems rest

/-- The parts of the values of fields. -/
def partsOfFields : List (String × Value) → List Value
  | [] => []
  | (_, v) :: rest => v.parts ++ partsOfFields rest

end

/-- A leaf is its only part. -/
theorem parts_of_leaf (h : isCompound v = false) : v.parts = [v] := by
  cases v with
  | list items => exact nomatch h
  | table fields => exact nomatch h
  | _ => rfl

/-- The parts of an array's items, item by item. -/
theorem partsOfItems_eq_flatMap (items : List Value) :
    partsOfItems items = items.flatMap parts := by
  induction items with
  | nil => rfl
  | cons v rest ih => rw [partsOfItems, ih, List.flatMap_cons]

/-- The parts of a table's fields, field by field. -/
theorem partsOfFields_eq_flatMap (fields : Fields Value) :
    partsOfFields fields = fields.flatMap fun field => field.2.parts := by
  induction fields with
  | nil => rfl
  | cons field rest ih => rw [partsOfFields, ih, List.flatMap_cons]

/-- The parts of an array are itself and those of its items. -/
theorem mem_parts_list :
    part ∈ (list items).parts ↔ part = list items ∨ ∃ v ∈ items, part ∈ v.parts := by
  rw [parts, List.mem_cons, partsOfItems_eq_flatMap, List.mem_flatMap]

/-- The parts of a table are itself and those of its fields' values. -/
theorem mem_parts_table :
    part ∈ (table fields).parts
      ↔ part = table fields ∨ ∃ field ∈ fields, part ∈ field.2.parts := by
  rw [parts, List.mem_cons, partsOfFields_eq_flatMap, List.mem_flatMap]

/-- A leaf has no names to sort. -/
theorem withSortedNames_of_leaf (h : isCompound v = false) : v.withSortedNames = v := by
  cases v with
  | list items => exact nomatch h
  | table fields => exact nomatch h
  | _ => rfl

/-- **Sorting the names of a value** sorts those of its parts. -/
theorem mem_parts_withSortedNames (v part : Value) :
    part ∈ v.withSortedNames.parts ↔ ∃ old ∈ v.parts, old.withSortedNames = part := by
  induction v using inductionOn generalizing part with
  | leaf v h =>
    rw [withSortedNames_of_leaf h, parts_of_leaf h]
    simp [withSortedNames_of_leaf h, eq_comm]
  | list items ih =>
    rw [withSortedNames_list, mem_parts_list]
    constructor
    · rintro (rfl | ⟨_, hsorted, hpart⟩)
      · exact ⟨_, mem_parts_list.mpr (.inl rfl), withSortedNames_list items⟩
      · obtain ⟨v, hv, rfl⟩ := List.mem_map.mp hsorted
        obtain ⟨old, hold, rfl⟩ := (ih v hv part).mp hpart
        exact ⟨old, mem_parts_list.mpr (.inr ⟨v, hv, hold⟩), rfl⟩
    · rintro ⟨old, hold, rfl⟩
      rcases mem_parts_list.mp hold with rfl | ⟨v, hv, hold⟩
      · exact .inl (withSortedNames_list items)
      · exact .inr ⟨_, List.mem_map_of_mem hv, (ih v hv _).mpr ⟨old, hold, rfl⟩⟩
  | table fields ih =>
    rw [withSortedNames_table, mem_parts_table]
    constructor
    · rintro (rfl | ⟨_, hsorted, hpart⟩)
      · exact ⟨_, mem_parts_table.mpr (.inl rfl), withSortedNames_table fields⟩
      · obtain ⟨field, hfield, rfl⟩ := mem_sortNames.mp hsorted
        obtain ⟨old, hold, rfl⟩ := (ih field hfield part).mp hpart
        exact ⟨old, mem_parts_table.mpr (.inr ⟨field, hfield, hold⟩), rfl⟩
    · rintro ⟨old, hold, rfl⟩
      rcases mem_parts_table.mp hold with rfl | ⟨field, hfield, hold⟩
      · exact .inl (withSortedNames_table fields)
      · exact .inr ⟨_, mem_sortNames.mpr ⟨field, hfield, rfl⟩, (ih field hfield _).mpr
          ⟨old, hold, rfl⟩⟩

/-! ## What is asked of a part -/

/-- **A regular part**: the names of a table are texts that differ, and an integer has few enough
digits to be written. -/
def Regular : Value → Prop
  | int n => Decimal.Short n
  | table fields => (Fields.keys fields).Nodup
  | mapping _ => False
  | _ => True

instance : DecidablePred Regular
  | int n => inferInstanceAs (Decidable (Decimal.Short n))
  | table fields => inferInstanceAs (Decidable (Fields.keys fields).Nodup)
  | mapping _ => isFalse id
  | null => isTrue trivial
  | bool _ => isTrue trivial
  | float _ => isTrue trivial
  | text _ => isTrue trivial
  | list _ => isTrue trivial
  | other _ _ => isTrue trivial

/-- **An unsupported part**: nothing, a number that may have a fraction, or a value of another
kind. -/
def isUnsupported : Value → Bool
  | null => true
  | float _ => true
  | other _ _ => true
  | _ => false

/-- **A value is portable** if its parts are regular and none of them is unsupported. -/
theorem portable_of_parts {v : Value} (regular : ∀ part ∈ v.parts, part.Regular)
    (supported : ∀ part ∈ v.parts, part.isUnsupported = false) : v.Portable := by
  induction v using inductionOn with
  | leaf v h =>
    rw [parts_of_leaf h] at regular supported
    have hregular := regular v List.mem_cons_self
    have hsupported := supported v List.mem_cons_self
    cases v with
    | text s => exact .text s
    | bool b => exact .bool b
    | int n => exact .int n hregular
    | list items => exact nomatch h
    | table fields => exact nomatch h
    | mapping entries => exact hregular.elim
    | null => exact nomatch hsupported
    | float x => exact nomatch hsupported
    | other kind shown => exact nomatch hsupported
  | list items ih =>
    refine .list items fun v hv => ih v hv (fun part hpart => ?_) fun part hpart => ?_
    · exact regular part (mem_parts_list.mpr (.inr ⟨v, hv, hpart⟩))
    · exact supported part (mem_parts_list.mpr (.inr ⟨v, hv, hpart⟩))
  | table fields ih =>
    have nodup : fields.keys.Nodup := regular _ (mem_parts_table.mpr (.inl rfl))
    refine .table fields nodup fun field hfield =>
      ih field hfield (fun part hpart => ?_) fun part hpart => ?_
    · exact regular part (mem_parts_table.mpr (.inr ⟨field, hfield, hpart⟩))
    · exact supported part (mem_parts_table.mpr (.inr ⟨field, hfield, hpart⟩))

/-! ## The same value -/

/-- **The same value**, in whatever order the names of its tables stand. -/
inductive Same : Value → Value → Prop
  | leaf {v : Value} (h : isCompound v = false) : Same v v
  | list {items others : List Value} (all : List.Forall₂ Same items others) :
      Same (.list items) (.list others)
  | table {fields others : Fields Value} (names : fields.keys.Perm others.keys)
      (all : ∀ name v w, fields.get? name = some v → others.get? name = some w → Same v w) :
      Same (.table fields) (.table others)

/-- **A portable value with its names sorted** is the same value. -/
theorem Portable.same_withSortedNames {v : Value} (h : v.Portable) : v.withSortedNames.Same v := by
  induction h with
  | text s =>
    rw [withSortedNames_text]
    exact .leaf rfl
  | bool b => exact .leaf rfl
  | int n short => exact .leaf rfl
  | list items all ih =>
    rw [withSortedNames_list]
    exact .list (List.forall₂_map_left_iff.mpr (List.forall₂_same.mpr ih))
  | table fields nodup all ih =>
    rw [withSortedNames_table]
    refine .table ?_ fun name v w hv hw => ?_
    · rw [← keys_sortNamesInFields fields]
      exact (Fields.sorted_perm _).map Prod.fst
    · rw [get?_sortNames nodup, hw] at hv
      cases hv
      exact ih _ ((Fields.get?_eq_some_iff nodup).mp hw)

end RuleCatalogue.Value
