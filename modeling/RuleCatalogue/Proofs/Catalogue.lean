import Mathlib.Tactic.Tauto
import RuleCatalogue.Merge
import RuleCatalogue.Proofs.Table
import RuleCatalogue.Proofs.Text.Substring
import RuleCatalogue.RuleEntry

/-!
# Sets of parameters, and catalogues

Sets are compared by their members (`ParameterSet.ext_mem`), so the order in which parameters were
added leaves no trace.  What an entry's parameters become is said in the same terms: adding one
makes it a member unless it is blank.

A catalogue answers every name: `Catalogue.entryOrNew` gives the entry filed under it, or one that
knows nothing yet.  In a catalogue that was read, every entry is filed under its own name
(`Catalogue.Filed`), names are trimmed and not empty, and no parameter is blank
(`Catalogue.Regular`).

## Main results

* `ParameterSet.ext_mem`: sets with the same members are equal.
* `RuleEntry.mem_addParameter`: what adding a parameter does.
* `Catalogue.entryOrNew_insert` and `Catalogue.filed_insert`: what filing an entry does.
* `Catalogue.regular_insert`: a regular entry keeps a catalogue regular.

## Design notes

A set is kept as an increasing list, which makes equality of sets the equality of what is stored.
No later proof opens the list: members and the three `addParameter` lemmas are all it uses.
-/

/-! ## Laws of parameter sets -/

namespace RuleCatalogue

namespace ParameterSet

@[simp] theorem not_mem_empty (p : Parameter) : p ∉ (∅ : ParameterSet) :=
  List.not_mem_nil

theorem nodup_toList (set : ParameterSet) : set.toList.Nodup := by
  refine set.increasing.imp fun {p q} hlt => ?_
  rintro rfl
  exact Parameter.lt_irrefl p hlt

/-- **Sets with the same members are equal.** A set is stored as a strictly increasing list, so the
members alone determine it; this is what lets `withoutBlanks_eq_self_iff` and the regrouping of
merges speak of equality. -/
theorem ext_mem {s t : ParameterSet} (h : ∀ p, p ∈ s ↔ p ∈ t) : s = t := by
  have hperm : s.toList.Perm t.toList :=
    (List.perm_ext_iff_of_nodup s.nodup_toList t.nodup_toList).mpr h
  refine ParameterSet.ext (hperm.eq_of_pairwise (fun p q _ _ hpq hqp => ?_) s.increasing
    t.increasing)
  exact absurd (Parameter.lt_trans hpq hqp) (Parameter.lt_irrefl p)

/-- The members of two sets together. -/
def union (s t : ParameterSet) : ParameterSet :=
  t.toList.foldl insert s

theorem mem_foldl_insert {s : ParameterSet} {p : Parameter} (list : List Parameter) :
    p ∈ list.foldl insert s ↔ p ∈ s ∨ p ∈ list := by
  induction list generalizing s with
  | nil => simp
  | cons q rest ih =>
    rw [List.foldl_cons, ih, mem_insert, List.mem_cons]
    tauto

@[simp] theorem mem_union {s t : ParameterSet} {p : Parameter} : p ∈ s.union t ↔ p ∈ s ∨ p ∈ t :=
  mem_foldl_insert t.toList

@[simp] theorem empty_union (s : ParameterSet) : (∅ : ParameterSet).union s = s :=
  ext_mem fun p => by simp

@[simp] theorem union_empty (s : ParameterSet) : s.union ∅ = s :=
  rfl

end ParameterSet

namespace RuleEntry

@[simp] theorem name_append (e : RuleEntry) (text : String) : (e.append text).name = e.name := rfl

@[simp] theorem parameters_append (e : RuleEntry) (text : String) :
    (e.append text).parameters = e.parameters := rfl

@[simp] theorem rawDescription_append (e : RuleEntry) (text : String) :
    (e.append text).rawDescription = e.rawDescription ++ text := rfl

@[simp] theorem name_addParameter (e : RuleEntry) (p : Parameter) :
    (e.addParameter p).name = e.name := by
  unfold addParameter
  split <;> rfl

@[simp] theorem rawDescription_addParameter (e : RuleEntry) (p : Parameter) :
    (e.addParameter p).rawDescription = e.rawDescription := by
  unfold addParameter
  split <;> rfl

/-- **Adding a parameter** makes it a member unless it is blank, and does nothing else.  A blank one
is dropped by `RuleEntry.addParameter` itself, so no caller has to look. -/
@[simp] theorem mem_addParameter {e : RuleEntry} {p q : Parameter} :
    q ∈ (e.addParameter p).parameters ↔ q ∈ e.parameters ∨ (q = p ∧ p.isBlank = false) := by
  by_cases haccepts : e.accepts p
  · have hblank : p.isBlank = false := by
      simp only [accepts, Bool.and_eq_true, Bool.not_eq_true'] at haccepts
      exact haccepts.1
    rw [addParameter, if_pos haccepts]
    simp [hblank, or_comm]
  · rw [addParameter, if_neg haccepts]
    refine ⟨Or.inl, fun h => h.elim id fun ⟨hq, hblank⟩ => ?_⟩
    -- A parameter that is not blank is refused only because it is there already.
    simpa [accepts, hblank, hq] using haccepts

/-- A blank parameter is not added. -/
theorem addParameter_of_isBlank {e : RuleEntry} {p : Parameter} (h : p.isBlank) :
    e.addParameter p = e := by
  rw [addParameter, if_neg]
  simp [accepts, h]

@[simp] theorem name_addParameters (e : RuleEntry) (ps : List Parameter) :
    (e.addParameters ps).name = e.name := by
  rw [addParameters]
  induction ps generalizing e with
  | nil => rfl
  | cons p rest ih => rw [List.foldl_cons, ih, name_addParameter]

@[simp] theorem rawDescription_addParameters (e : RuleEntry) (ps : List Parameter) :
    (e.addParameters ps).rawDescription = e.rawDescription := by
  rw [addParameters]
  induction ps generalizing e with
  | nil => rfl
  | cons p rest ih => rw [List.foldl_cons, ih, rawDescription_addParameter]

/-- **Adding parameters** makes those members that are not blank, by `mem_addParameter` one after
another. -/
theorem mem_addParameters {e : RuleEntry} {ps : List Parameter} {q : Parameter} :
    q ∈ (e.addParameters ps).parameters
      ↔ q ∈ e.parameters ∨ (q ∈ ps ∧ q.isBlank = false) := by
  rw [addParameters]
  induction ps generalizing e with
  | nil => simp
  | cons p rest ih =>
    rw [List.foldl_cons, ih, mem_addParameter, List.mem_cons, or_assoc]
    refine or_congr_right ?_
    constructor
    · rintro (⟨rfl, hblank⟩ | ⟨hrest, hblank⟩)
      · exact ⟨Or.inl rfl, hblank⟩
      · exact ⟨Or.inr hrest, hblank⟩
    · rintro ⟨rfl | hrest, hblank⟩
      · exact Or.inl ⟨rfl, hblank⟩
      · exact Or.inr ⟨hrest, hblank⟩

end RuleEntry

end RuleCatalogue

/-! ## Laws of catalogues -/

namespace RuleCatalogue

/-- **What is known of every entry that was read**: its name is trimmed and not empty, and none of
its parameters is blank. -/
structure RuleEntry.Regular (e : RuleEntry) : Prop where
  named : e.name ≠ ""
  trimmed : Text.Trimmed e.name.toList
  noBlanks : ∀ p ∈ e.parameters, p.isBlank = false

namespace Catalogue

/-! ## The entry under a name -/

theorem get?_of_mem_keys {c : Catalogue} {name : String} (h : name ∈ c.keys) :
    c.get? name = some (c.entryOrNew name) := by
  rw [entryOrNew]
  cases hget : c.get? name with
  | none => exact absurd h (Table.get?_eq_none_iff.mp hget)
  | some e => rfl

theorem entryOrNew_insert (c : Catalogue) (key : String) (e : RuleEntry) (name : String) :
    entryOrNew (c.insert key e) name = if key = name then e else c.entryOrNew name := by
  rw [entryOrNew, Table.get?_insert]
  split
  · rfl
  · rfl

/-! ## Entries under their own names -/

/-- **Every entry is filed under its own name.** -/
def Filed (c : Catalogue) : Prop :=
  ∀ name e, c.get? name = some e → e.name = name

theorem filed_insert {c : Catalogue} (h : c.Filed) (e : RuleEntry) : Filed (c.insert e.name e) := by
  intro name other hother
  rw [Table.get?_insert] at hother
  split at hother
  · next hname =>
    cases hother
    exact hname
  · exact h name other hother

theorem name_entryOrNew {c : Catalogue} (h : c.Filed) (name : String) :
    (c.entryOrNew name).name = name := by
  rw [entryOrNew]
  cases hfiled : c.get? name with
  | none => rfl
  | some e => exact h name e hfiled

/-! ## Catalogues that were read -/

/-- **What is known of every catalogue that was read.** -/
structure Regular (c : Catalogue) : Prop where
  filed : c.Filed
  entries : ∀ name e, c.get? name = some e → e.Regular

theorem regular_empty : Regular ∅ where
  filed _ _ h := nomatch h
  entries _ _ h := nomatch h

/-- A catalogue is regular if it answers every name of its own with a regular entry of that name. -/
theorem regular_of_entryOrNew {c : Catalogue}
    (h : ∀ name ∈ c.keys, (c.entryOrNew name).name = name ∧ (c.entryOrNew name).Regular) :
    c.Regular := by
  have hentry (name : String) (e : RuleEntry) (hget : c.get? name = some e) :
      e.name = name ∧ e.Regular := by
    have hname : name ∈ c.keys := by
      refine Decidable.byContradiction fun hmissing => ?_
      rw [Table.get?_eq_none_iff.mpr hmissing] at hget
      cases hget
    rw [get?_of_mem_keys hname] at hget
    cases hget
    exact h name hname
  exact ⟨fun name e hget => (hentry name e hget).1, fun name e hget => (hentry name e hget).2⟩

theorem regular_insert {c : Catalogue} (h : c.Regular) {e : RuleEntry} (he : e.Regular) :
    Regular (c.insert e.name e) where
  filed := filed_insert h.filed e
  entries name other hother := by
    rw [Table.get?_insert] at hother
    split at hother
    · cases hother
      exact he
    · exact h.entries name other hother

end Catalogue

end RuleCatalogue
