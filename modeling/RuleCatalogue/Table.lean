/-!
# Tables that keep the order of insertion

An association list in which each key stands once.  Inserting at a key that is present replaces
the value where it stands; a new key goes to the end.  `Fields` holds the operations on plain
lists, which dynamic values use; `Table` adds the invariant.
-/

namespace RuleCatalogue

/-- Named values in order. -/
abbrev Fields (α : Type) := List (String × α)

namespace Fields

variable {α β : Type}

/-- The names in order. -/
def keys (fields : Fields α) : List String :=
  fields.map Prod.fst

/-- The value at a name. -/
def get? (key : String) : Fields α → Option α
  | [] => none
  | (name, value) :: rest => if name = key then some value else get? key rest

/-- Whether a name occurs. -/
def has (key : String) (fields : Fields α) : Bool :=
  (get? key fields).isSome

/-- Replaces the value at a name, or adds the name at the end. -/
def insert (key : String) (value : α) : Fields α → Fields α
  | [] => [(key, value)]
  | (name, old) :: rest =>
      if name = key then (name, value) :: rest else (name, old) :: insert key value rest

/-- The fields without a name. -/
def erase (key : String) (fields : Fields α) : Fields α :=
  fields.filter fun field => field.1 ≠ key

/-- The fields that a sequence of insertions leaves: a repeated name keeps its first place and its
last value. -/
def ofList (pairs : List (String × α)) : Fields α :=
  pairs.foldl (fun fields (key, value) => insert key value fields) []

/-- The fields in the order of their names. -/
def sorted (fields : Fields α) : Fields α :=
  fields.mergeSort fun a b => decide (a.1 ≤ b.1)

theorem keys_insert_of_not_mem {key : String} {value : α} :
    {fields : Fields α} → key ∉ keys fields → keys (insert key value fields) = keys fields ++ [key]
  | [], _ => rfl
  | (name, old) :: rest, h => by
      have hne : name ≠ key := fun e => h (by simp [keys, e])
      have hrest : key ∉ keys rest := fun m => h (by simpa [keys] using Or.inr m)
      simpa [insert, hne, keys] using keys_insert_of_not_mem hrest

theorem keys_insert_of_mem {key : String} {value : α} :
    {fields : Fields α} → key ∈ keys fields → keys (insert key value fields) = keys fields
  | [], h => by simp [keys] at h
  | (name, old) :: rest, h => by
      by_cases hname : name = key
      · simp [insert, hname, keys]
      · have hrest : key ∈ keys rest := by
          have : key = name ∨ key ∈ keys rest := by simpa [keys] using h
          exact this.resolve_left fun e => hname e.symm
        simpa [insert, hname, keys] using keys_insert_of_mem hrest

theorem nodup_keys_insert {key : String} {value : α} {fields : Fields α}
    (h : (keys fields).Nodup) : (keys (insert key value fields)).Nodup := by
  by_cases hmem : key ∈ keys fields
  · rwa [keys_insert_of_mem hmem]
  · rw [keys_insert_of_not_mem hmem]
    refine List.nodup_append.mpr ⟨h, by simp, ?_⟩
    intro a ha b hb
    have : b = key := by simpa using hb
    exact fun e => hmem (this ▸ e ▸ ha)

end Fields

/-- **A table**: fields whose names are all different, in the order of their first insertion. -/
structure Table (α : Type) where
  fields : Fields α
  nodup : (Fields.keys fields).Nodup

namespace Table

variable {α β : Type}

/-- The table without entries. -/
def empty : Table α :=
  ⟨[], List.nodup_nil⟩

instance : EmptyCollection (Table α) := ⟨empty⟩

instance : Inhabited (Table α) := ⟨empty⟩

/-- The names in the order of their first insertion. -/
def keys (table : Table α) : List String :=
  table.fields.keys

/-- The value at a name. -/
def get? (table : Table α) (key : String) : Option α :=
  table.fields.get? key

/-- Whether a name occurs. -/
def contains (table : Table α) (key : String) : Bool :=
  table.fields.has key

/-- Replaces the value at a name where it stands, or adds the name at the end. -/
def insert (table : Table α) (key : String) (value : α) : Table α :=
  ⟨table.fields.insert key value, Fields.nodup_keys_insert table.nodup⟩

/-- The number of entries. -/
def size (table : Table α) : Nat :=
  table.fields.length

/-- The entries in order. -/
def toList (table : Table α) : List (String × α) :=
  table.fields

/-- The values in order. -/
def values (table : Table α) : List α :=
  table.fields.map Prod.snd

/-- The table that inserting the pairs one after another leaves. -/
def ofList (pairs : List (String × α)) : Table α :=
  pairs.foldl (fun table (key, value) => table.insert key value) empty

end Table

end RuleCatalogue
