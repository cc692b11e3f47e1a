import RuleCatalogue.Proofs.Fallible
import RuleCatalogue.Proofs.Table
import RuleCatalogue.Toml.Reader

/-!
# What the reader of TOML gives

Whatever the text, the reader either gives a table in which no name stands twice, neither at its
root nor in any table inside (`Value.Distinct`), or it stops for one of two causes
(`Toml.Unreadable`).

## Design notes

All fields come into a document through `updateNest`, and all it changes are single tables; that it
keeps names apart is the one fact about tables here.  The rest follows the reader step by step.

## Main results

* `distinct_updateNest`: a change of one table inside others.
* `readsWithin`: the readers of values, with any bound.
* `Apart.statements`: statements one after another.
* `reads_parse`: a whole text.
-/

namespace RuleCatalogue

namespace Value

/-- **No name stands twice** in a table, nor in the tables inside a value. -/
inductive Distinct : Value → Prop
  | leaf {v : Value} (h : Toml.isCompound v = false) : Distinct v
  | list {items : List Value} (all : ∀ v ∈ items, Distinct v) : Distinct (.list items)
  | table {fields : Fields Value} (nodup : fields.keys.Nodup)
      (all : ∀ name v, fields.get? name = some v → Distinct v) : Distinct (.table fields)

variable {fields : Fields Value} {items : List Value} {name : String} {v : Value}

/-- The names of a table's own fields differ. -/
theorem Distinct.nodup (h : Distinct (.table fields)) : fields.keys.Nodup := by
  cases h with
  | leaf h => exact nomatch h
  | table nodup all => exact nodup

/-- The value found under a name is again free of repeated names. -/
theorem Distinct.get? (h : Distinct (.table fields)) (hget : fields.get? name = some v) :
    Distinct v := by
  cases h with
  | leaf h => exact nomatch h
  | table nodup all => exact all name v hget

/-- The elements of an array are free of repeated names. -/
theorem Distinct.of_mem (h : Distinct (.list items)) (hv : v ∈ items) : Distinct v := by
  cases h with
  | leaf h => exact nomatch h
  | list all => exact all v hv

/-- A table without fields repeats no name. -/
theorem distinct_empty : Distinct (.table []) :=
  .table List.nodup_nil fun _ _ h => nomatch h

/-- Adding or replacing a field keeps the names apart: `Fields.insert` writes over the field of that
name where there is one. -/
theorem Distinct.insert (h : Distinct (.table fields)) (hv : Distinct v) :
    Distinct (.table (Fields.insert name v fields)) := by
  refine .table (Fields.nodup_keys_insert h.nodup) fun other found hfound => ?_
  rw [Fields.get?_insert] at hfound
  split at hfound
  · cases hfound
    exact hv
  · exact h.get? hfound

end Value

namespace Toml

open Value (Distinct)

/-- **Why a text is no TOML**: it breaks the rules, or an integer has too many digits. -/
inductive Unreadable : ReadError → Prop
  | malformed : Unreadable (.malformed .toml)
  | oversizedInteger (digits : Nat) : Unreadable (.oversizedInteger digits)

/-- A step of the reader stops for no other cause, and what it gives satisfies `p`. -/
abbrev Reads {α : Type} (p : α → Prop) (result : Except ReadError α) : Prop :=
  Fallible Unreadable p result

variable {α : Type} {p : α → Prop} {fields : Fields Value} {v : Value}

/-- A refused text has nothing to show. -/
theorem reads_malformed : Reads p malformed :=
  Unreadable.malformed

/-- A part that is missing is a refusal, so only the value that was found matters. -/
theorem reads_required {found : Option α} (h : ∀ a, found = some a → p a) :
    Reads p (required found) := by
  cases found with
  | none => exact reads_malformed
  | some a => exact h a rfl

/-! ## Scalars -/

/-- Nothing is asked of an integer; the bound on its digits can only make the reading fail. -/
theorem reads_integer (negative : Bool) (digits : List Char) :
    Reads (fun _ => True) (Decimal.integer negative digits) := by
  unfold Decimal.integer
  split
  · exact Unreadable.oversizedInteger _
  · exact trivial

/-- A date or a time is written as a table of its parts under fixed names. -/
theorem distinct_momentValue (date : Date) (time : TimeOfDay) (offset : Option Int) :
    Distinct (momentValue date time offset) :=
  .leaf rfl

/-- A date or a time holds no table of the document, whichever of the two it is. -/
theorem reads_moment {s rest : List Char} {read : Except ReadError Value}
    (h : moment? s = some (read, rest)) : Reads Distinct read := by
  obtain ⟨⟨date, afterDate⟩, -, hread⟩ := Option.map_eq_some_iff.mp h
  have hvalue : ∃ v, Distinct v ∧ (if date.problem?.isSome then malformed else .ok v) = read := by
    cases htime : timeBehindDate? afterDate with
    | none =>
      simp only [htime] at hread
      exact ⟨_, .leaf rfl, (Prod.mk.inj hread).1⟩
    | some found =>
      simp only [htime] at hread
      exact ⟨_, distinct_momentValue .., (Prod.mk.inj hread).1⟩
  obtain ⟨v, hv, rfl⟩ := hvalue
  split
  · exact reads_malformed
  · exact hv

/-- A number has no fields. -/
theorem reads_decimalNumber {s rest : List Char} {read : Except ReadError Value}
    (h : decimalNumber? s = some (read, rest)) : Reads Distinct read := by
  simp only [decimalNumber?] at h
  split at h
  · exact nomatch h
  · split at h
    · cases h
      exact (reads_integer _ _).map fun n _ => .leaf rfl
    · cases h
      exact .leaf rfl

/-- The infinities and the number that is none have no fields. -/
theorem distinct_specialNumber {s : List Char} {read : Value × List Char}
    (h : specialNumber? s = some read) : Distinct read.1 := by
  simp only [specialNumber?] at h
  split at h
  · cases h
    exact .leaf rfl
  · cases h
    exact .leaf rfl
  · exact nomatch h

/-- **A scalar** has no tables inside but those that stand for dates and times, whose names are
fixed. -/
theorem reads_bareScalar (s : List Char) :
    Reads (fun read => Distinct read.1) (bareScalar s) := by
  unfold bareScalar
  split
  · exact .leaf rfl
  · exact .leaf rfl
  · split
    · next h => exact (reads_moment h).map fun v hv => hv
    · split
      · exact .leaf rfl
      · split
        · exact .leaf rfl
        · split
          · next h => exact (reads_decimalNumber h).map fun v hv => hv
          · split
            · next h => exact distinct_specialNumber h
            · exact reads_malformed

/-! ## Tables inside tables -/

/-- **A change of one table inside others** keeps names apart if it does so in that table.
`hchange` is about the innermost one; on the way down the path fields are replaced and never added
twice. -/
theorem distinct_updateNest {throughLists : Bool} {change : Fields Value → Option (Fields Value)}
    (hchange : ∀ before after, Distinct (.table before) → change before = some after →
      Distinct (.table after))
    {path : Path} {after : Fields Value} (h : Distinct (.table fields))
    (hafter : updateNest throughLists change path fields = some after) :
    Distinct (.table after) := by
  induction path generalizing fields after with
  | nil => exact hchange _ _ h hafter
  | cons key path ih =>
    have hvalue : Distinct ((fields.get? key).getD (.table [])) := by
      cases hget : fields.get? key with
      | none => exact Value.distinct_empty
      | some v => exact h.get? hget
    rw [updateNest] at hafter
    split at hafter
    · next inner heq =>
      obtain ⟨changed, hchanged, hinsert⟩ := Option.bind_eq_some_iff.mp hafter
      cases hinsert
      exact h.insert (ih (heq ▸ hvalue) hchanged)
    · next items heq =>
      rw [heq] at hvalue
      split at hafter
      · next inner hlast =>
        split at hafter
        · obtain ⟨changed, hchanged, hinsert⟩ := Option.bind_eq_some_iff.mp hafter
          cases hinsert
          have hinner : Distinct (.table inner) := hvalue.of_mem (List.mem_of_getLast? hlast)
          refine h.insert (.list fun v hv => ?_)
          rcases List.mem_append.mp hv with hv | hv
          · exact hvalue.of_mem (List.dropLast_subset _ hv)
          · rw [List.mem_singleton.mp hv]
            exact ih hinner hchanged
        · exact nomatch hafter
      · exact nomatch hafter
    · exact nomatch hafter

/-- Assigning a dotted key keeps the names apart in every table it passes: the step refuses a name
that is there and is not a table. -/
theorem distinct_addField {key : String} {before after : Fields Value} (hv : Distinct v)
    (h : Distinct (.table before)) (hafter : addField key v before = some after) :
    Distinct (.table after) := by
  rw [addField] at hafter
  split at hafter
  · exact nomatch hafter
  · cases hafter
    exact h.insert hv

/-- The same for the fields of an inline table, where the tables already closed are refused as well.
-/
theorem distinct_addInline {frozen : List Path} {path : Path} {after : Fields Value}
    (hv : Distinct v) (h : Distinct (.table fields))
    (hafter : addInline frozen path v fields = some after) : Distinct (.table after) := by
  rw [addInline] at hafter
  split at hafter
  · exact nomatch hafter
  · split at hafter
    · exact distinct_updateNest (fun _ _ => distinct_addField hv) h hafter
    · exact nomatch hafter

/-! ## Values -/

/-- What is known of the readers of values that take so many steps. -/
structure ReadsWithin (steps : Nat) : Prop where
  value (s : List Char) : Reads (fun read => Distinct read.1) (value steps s)
  items (s : List Char) : Reads (fun read => ∀ v ∈ read.1, Distinct v) (items steps s)
  inlineFields (frozen : List Path) (fields : Fields Value) (h : Distinct (.table fields))
    (s : List Char) : Reads (fun read => Distinct read.1) (inlineFields steps frozen fields s)
  field (s : List Char) : Reads (fun read => Distinct read.2.1) (field steps s)

/-- Without steps nothing is read. -/
theorem readsWithin_zero : ReadsWithin 0 where
  value _ := by rw [Toml.value]; exact reads_malformed
  items _ := by rw [Toml.items]; exact reads_malformed
  inlineFields _ _ _ _ := by rw [Toml.inlineFields]; exact reads_malformed
  field _ := by rw [Toml.field]; exact reads_malformed

/-- A part that nothing is asked of. -/
theorem reads_some {found : Option α} : Reads (fun _ => True) (required found) :=
  reads_required fun _ _ => trivial

/-- One more step of the readers: each is followed once through its text, and the readers it calls
are those of the step before. -/
theorem ReadsWithin.succ {steps : Nat} (ih : ReadsWithin steps) : ReadsWithin (steps + 1) where
  value s := by
    unfold Toml.value
    split
    · refine reads_some.bind fun ahead _ => ?_
      split
      · exact .list fun _ h => nomatch h
      · refine (ih.items _).bind fun read hread => ?_
        exact .list hread
    · split
      · exact Value.distinct_empty
      · exact ih.inlineFields _ _ Value.distinct_empty _
    · split
      · refine reads_some.bind fun read _ => ?_
        exact .leaf rfl
      · exact reads_bareScalar _
    · exact reads_malformed
  items s := by
    rw [Toml.items]
    refine (ih.value s).bind fun (v, after) hv => ?_
    have hone : ∀ w ∈ [v], Distinct w := fun w hw => List.mem_singleton.mp hw ▸ hv
    refine reads_some.bind fun ahead _ => ?_
    split
    · exact hone
    · refine reads_some.bind fun more _ => ?_
      split
      · exact hone
      · refine (ih.items _).bind fun (others, final) hothers => ?_
        exact List.forall_mem_cons.mpr ⟨hv, hothers⟩
    · exact reads_malformed
  inlineFields frozen fields h s := by
    rw [Toml.inlineFields]
    refine (ih.field s).bind fun (path, v, after) hv => ?_
    refine (reads_required fun fields hfields => distinct_addInline hv h hfields).bind
      fun fields hfields => ?_
    split
    · exact hfields
    · exact ih.inlineFields _ _ hfields _
    · exact reads_malformed
  field s := by
    rw [Toml.field]
    refine reads_some.bind ?_
    rintro ⟨path, afterName⟩ -
    dsimp only
    split
    · refine (ih.value _).bind fun (v, after) hv => ?_
      exact hv
    · exact reads_malformed

/-- **Whatever the bound, the readers return only values without repeated names.** The induction is
on the bound, over all readers at once, since an array holds values and a value holds arrays. -/
theorem readsWithin (steps : Nat) : ReadsWithin steps := by
  induction steps with
  | zero => exact readsWithin_zero
  | succ steps ih => exact ih.succ

/-! ## Documents -/

namespace Document

/-- **A document keeps names apart** if its root table does. -/
def Apart (d : Document) : Prop :=
  Distinct (.table d.root)

variable {d next : Document} {path : Path}

/-- Closing the table under construction changes none of its fields. -/
theorem Apart.settle (h : Apart d) : Apart d.settle := h

/-- A header opens a table among those that exist, and adds an empty one where none does. -/
theorem Apart.openTable (h : Apart d) (hnext : d.openTable path = some next) : Apart next := by
  rw [Document.openTable] at hnext
  split at hnext
  · exact nomatch hnext
  · obtain ⟨root, hroot, hd⟩ := Option.bind_eq_some_iff.mp hnext
    cases hd
    refine distinct_updateNest (fun before after hbefore hafter => ?_) h hroot
    cases hafter
    exact hbefore

/-- An element added to an array of tables is an empty table, so no name is repeated in it. -/
theorem distinct_appendTable {key : String} {before after : Fields Value}
    (h : Distinct (.table before)) (hafter : appendTable key before = some after) :
    Distinct (.table after) := by
  rw [appendTable] at hafter
  split at hafter
  · cases hafter
    refine h.insert (.list fun v hv => ?_)
    rw [List.mem_singleton.mp hv]
    exact Value.distinct_empty
  · next items hget =>
    cases hafter
    refine h.insert (.list fun v hv => ?_)
    rcases List.mem_append.mp hv with hv | hv
    · exact (h.get? hget).of_mem hv
    · rw [List.mem_singleton.mp hv]
      exact Value.distinct_empty
  · exact nomatch hafter

/-- A header of an array of tables keeps the document's names apart. -/
theorem Apart.openItem (h : Apart d) (hnext : d.openItem path = some next) : Apart next := by
  rw [Document.openItem] at hnext
  split at hnext
  · exact nomatch hnext
  · split at hnext
    · exact nomatch hnext
    · obtain ⟨root, hroot, hd⟩ := Option.bind_eq_some_iff.mp hnext
      cases hd
      exact distinct_updateNest (fun _ _ => distinct_appendTable) h hroot

/-- An assignment below a header keeps the names apart when the value assigned does. -/
theorem Apart.addValue (h : Apart d) (hv : Distinct v) (hnext : d.addValue path v = some next) :
    Apart next := by
  rw [Document.addValue] at hnext
  split at hnext
  · exact nomatch hnext
  · split at hnext
    · exact nomatch hnext
    · obtain ⟨root, hroot, hd⟩ := Option.bind_eq_some_iff.mp hnext
      cases hd
      exact distinct_updateNest (fun _ _ => distinct_addField hv) h hroot

/-- **One statement** keeps the document's names apart: a header, an assignment, or nothing. -/
theorem Apart.statement (h : Apart d) (steps : Nat) (s : List Char) :
    Reads (fun read => Apart read.1) (d.statement steps s) := by
  unfold Document.statement
  split
  · refine reads_some.bind fun (path, after) _ => ?_
    refine (reads_required fun next => h.settle.openItem).bind fun next hnext => ?_
    split
    · exact hnext
    · exact reads_malformed
  · refine reads_some.bind fun (path, after) _ => ?_
    refine (reads_required fun next => h.settle.openTable).bind fun next hnext => ?_
    split
    · exact hnext
    · exact reads_malformed
  · split
    · refine ((readsWithin steps).field _).bind fun (path, v, rest) hv => ?_
      refine (reads_required fun next => h.addValue hv).bind fun next hnext => ?_
      exact hnext
    · exact h
  · exact h

/-- **One statement after another**, by induction on the steps. -/
theorem Apart.statements (h : Apart d) (steps : Nat) (s : List Char) :
    Reads Apart (Document.statements steps d s) := by
  induction steps generalizing d s with
  | zero =>
    rw [Document.statements]
    exact reads_malformed
  | succ steps ih =>
    rw [Document.statements]
    refine (h.statement steps _).bind fun (next, rest) hnext => ?_
    refine reads_some.bind fun ahead _ => ?_
    split
    · exact hnext
    · exact ih hnext _
    · exact reads_malformed

end Document

/-- **The reader of TOML** gives a table without a name that stands twice, or it stops for one of
two causes: it is malformed, or an integer has too many digits. -/
theorem reads_parse (s : String) :
    Reads (fun v => ∃ fields, v = .table fields ∧ Distinct v) (parse s) := by
  have hempty : Document.Apart {} := Value.distinct_empty
  refine (hempty.statements _ _).bind fun d hd => ?_
  exact ⟨d.root, rfl, hd⟩

end Toml

end RuleCatalogue
