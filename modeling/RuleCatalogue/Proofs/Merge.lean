import Mathlib.Data.List.Basic
import Mathlib.Data.List.Induction
import RuleCatalogue.Proofs.Catalogue

/-!
# What merging makes of catalogues

Merging goes entry by entry and remembers only the rules so far.  What it amounts to can be said
without it (`Catalogue.mergeAll_eq_closed_form`): a name stands where it first appeared, its
parameters are all that are not blank, its description is the first one shown, and the conflicts are
the descriptions shown after that.

## Main definitions

* `Catalogue.firstShown?` is the first description that catalogues show for a rule.
* `Catalogue.conflictsBehind` lists the conflicts of a catalogue with those before it.

## Design notes

Within one catalogue every name stands once, so what is known when an entry is merged is what was
known before the whole catalogue (`Merging.conflicts_run`).  From catalogue to catalogue the
induction is on the end of the list, because both sides speak of the catalogues before one.

## Main results

* `Merging.entryOrNew_run` and `Merging.conflicts_run`: one catalogue merged into what is known.
* `Catalogue.mem_parameters_mergeAll` and `Catalogue.rawDescription_mergeAll`: the entry of a rule.
* `Catalogue.mergeAll_eq_closed_form`: the whole.
-/

namespace RuleCatalogue

/-! ## One entry -/

namespace RuleEntry

/-- The description as it is kept, if there is one to show. -/
def shown? (e : RuleEntry) : Option String :=
  if e.hasDescription then some e.rawDescription else none

@[simp] theorem name_absorb (target source : RuleEntry) :
    (target.absorb source).name = target.name := by
  have hunited := name_addParameters target source.parameters.toList
  simp only [absorb]
  split
  · exact hunited
  · exact hunited

/-- **The parameters of two entries are united**; blank ones are dropped.  Only those of the source
are looked at, since an entry that is merged into has been merged or read already. -/
theorem mem_absorb {target source : RuleEntry} {p : Parameter} :
    p ∈ (target.absorb source).parameters
      ↔ p ∈ target.parameters ∨ (p ∈ source.parameters ∧ p.isBlank = false) := by
  have hunited : p ∈ (target.addParameters source.parameters.toList).parameters
      ↔ p ∈ target.parameters ∨ (p ∈ source.parameters ∧ p.isBlank = false) :=
    mem_addParameters
  simp only [absorb]
  split
  · exact hunited
  · exact hunited

/-- **The description that is shown stays**; if there is none, that of the source is taken.
`shown?` is the description with its blanks, if there is more to it than blanks. -/
theorem shown?_absorb (target source : RuleEntry) :
    (target.absorb source).shown? = target.shown?.or source.shown? := by
  have hunited : (target.addParameters source.parameters.toList).shown? = target.shown? := by
    simp [shown?, hasDescription]
  unfold absorb
  by_cases htarget : target.hasDescription
  · have hshown : target.shown? = some target.rawDescription := if_pos htarget
    simp [htarget, hunited, hshown]
  · have hnone : target.shown? = none := if_neg htarget
    by_cases hsource : source.hasDescription
    · have hadopted (e : RuleEntry) : (e.adoptDescription source).shown? = source.shown? := rfl
      simp [htarget, hsource, hnone, hadopted]
    · have hnothing : source.shown? = none := if_neg hsource
      simp [htarget, hsource, hunited, hnone, hnothing]

/-- What is not shown is kept as it was, unless the source shows something. -/
theorem rawDescription_absorb_eq (target source : RuleEntry) :
    (target.absorb source).rawDescription
      = (target.shown?.or source.shown?).getD target.rawDescription := by
  unfold absorb
  by_cases htarget : target.hasDescription
  · have hshown : target.shown? = some target.rawDescription := if_pos htarget
    simp [htarget, hshown]
  · have hnone : target.shown? = none := if_neg htarget
    by_cases hsource : source.hasDescription
    · have hshown : source.shown? = some source.rawDescription := if_pos hsource
      simp [htarget, hsource, hnone, hshown, adoptDescription]
    · have hnothing : source.shown? = none := if_neg hsource
      simp [htarget, hsource, hnone, hnothing]

/-- An entry is blank where it shows nothing, if it began empty and only took what others show. -/
theorem rawDescription_absorb {target source : RuleEntry}
    (h : target.rawDescription = target.shown?.getD "") :
    (target.absorb source).rawDescription = (target.absorb source).shown?.getD "" := by
  rw [rawDescription_absorb_eq, shown?_absorb]
  cases htarget : target.shown? with
  | none =>
    rw [htarget] at h
    rw [h, Option.getD_none]
  | some kept => rfl

/-- **A conflict needs two descriptions**, and reports both of them trimmed.  Whether they differ is
not asked. -/
theorem conflict?_eq (target source : RuleEntry) (rule : String) (file : Option String) :
    target.conflict? source rule file =
      source.shown?.bind fun rejected => target.shown?.map fun kept =>
        ⟨rule, Text.trimmed kept, Text.trimmed rejected, file⟩ := by
  unfold conflict? shown?
  by_cases htarget : target.hasDescription
  · by_cases hsource : source.hasDescription
    · simp [htarget, hsource, description]
    · simp [htarget, hsource]
  · by_cases hsource : source.hasDescription <;> simp [htarget, hsource]

end RuleEntry

/-! ## One catalogue -/

namespace Merging

variable (file : Option String)

theorem catalogue_take (m : Merging) (name : String) (e : RuleEntry) :
    (m.take file name e).catalogue
      = m.catalogue.insert name ((m.catalogue.entryOrNew name).absorb e) := by
  simp only [take]
  split <;> rfl

theorem conflicts_take (m : Merging) (name : String) (e : RuleEntry) :
    (m.take file name e).conflicts
      = m.conflicts ++ ((m.catalogue.entryOrNew name).conflict? e name file).toList := by
  simp only [take]
  split
  · next h => simp [h]
  · next c h => simp [h]

/-- **The log tells the conflicts**, each once and in their order. -/
def Told (m : Merging) : Prop :=
  m.events = m.conflicts.map .conflict

theorem told_take {m : Merging} (h : m.Told) (name : String) (e : RuleEntry) :
    (m.take file name e).Told := by
  simp only [take]
  split
  · exact h
  · show m.events ++ _ = (m.conflicts ++ _).map _
    rw [h, List.map_append]
    rfl

theorem told_followedBy {m next : Merging} (h : m.Told) (hnext : next.Told) :
    (m.followedBy next).Told := by
  show m.events ++ next.events = (m.conflicts ++ next.conflicts).map _
  rw [h, hnext, List.map_append]

/-- The merging of entries one after another. -/
def run (m : Merging) (entries : Fields RuleEntry) : Merging :=
  entries.foldl (fun m (name, entry) => m.take file name entry) m

@[simp] theorem run_nil (m : Merging) : m.run file [] = m := rfl

@[simp] theorem run_cons (m : Merging) (name : String) (e : RuleEntry)
    (rest : Fields RuleEntry) :
    m.run file ((name, e) :: rest) = (m.take file name e).run file rest :=
  rfl

theorem told_run {m : Merging} (h : m.Told) (entries : Fields RuleEntry) :
    (m.run file entries).Told := by
  induction entries generalizing m with
  | nil => exact h
  | cons entry rest ih => exact ih (told_take file h entry.1 entry.2)

variable {entries : Fields RuleEntry}

/-- The names that are new stand behind the others. -/
theorem keys_run (m : Merging) (nodup : entries.keys.Nodup) :
    (m.run file entries).catalogue.keys
      = m.catalogue.keys ++ entries.keys.filter fun name => name ∉ m.catalogue.keys := by
  induction entries generalizing m with
  | nil => simp [Fields.keys]
  | cons entry rest ih =>
    obtain ⟨name, e⟩ := entry
    obtain ⟨hfresh, hnodup⟩ := List.nodup_cons.mp nodup
    have hkeys : Fields.keys ((name, e) :: rest) = name :: Fields.keys rest := rfl
    rw [run_cons, ih _ hnodup, catalogue_take, Table.keys_insert, hkeys]
    by_cases hname : name ∈ m.catalogue.keys
    · rw [if_pos hname, List.filter_cons_of_neg (by simpa using hname)]
    · -- The name goes to the end, and is not met again in the rest.
      have hrest : ∀ other ∈ Fields.keys rest,
          decide (other ∉ m.catalogue.keys ++ [name]) = decide (other ∉ m.catalogue.keys) := by
        intro other hother
        have hne : other ≠ name := fun h => hfresh (h ▸ hother)
        simp [hne]
      rw [if_neg hname, List.filter_cons_of_pos (by simpa using hname), List.filter_congr hrest,
        List.append_assoc, List.singleton_append]

/-- **An entry is merged into what was known under its name**; the others stay.  `nodup` makes each
name of `entries` be met once, so its entry meets what was known before the walk. -/
theorem entryOrNew_run (m : Merging) (nodup : entries.keys.Nodup) (name : String) :
    (m.run file entries).catalogue.entryOrNew name =
      (entries.get? name).elim (m.catalogue.entryOrNew name)
        (m.catalogue.entryOrNew name).absorb := by
  induction entries generalizing m with
  | nil => rfl
  | cons entry rest ih =>
    obtain ⟨first, e⟩ := entry
    obtain ⟨hfresh, hnodup⟩ := List.nodup_cons.mp nodup
    rw [run_cons, ih _ hnodup, catalogue_take, Catalogue.entryOrNew_insert, Fields.get?]
    by_cases hname : first = name
    · subst hname
      rw [Fields.get?_eq_none_iff.mpr hfresh]
      simp
    · simp [hname]

/-- **The conflicts are those with what was known before**: no entry meets another of its own
catalogue, since no name occurs twice there.  They are appended in the order of `entries`. -/
theorem conflicts_run (m : Merging) (nodup : entries.keys.Nodup) :
    (m.run file entries).conflicts = m.conflicts ++ entries.filterMap fun (name, e) =>
      (m.catalogue.entryOrNew name).conflict? e name file := by
  induction entries generalizing m with
  | nil => simp
  | cons entry rest ih =>
    obtain ⟨name, e⟩ := entry
    obtain ⟨hfresh, hnodup⟩ := List.nodup_cons.mp nodup
    have hrest : ∀ field ∈ rest,
        ((m.take file name e).catalogue.entryOrNew field.1).conflict? field.2 field.1 file
          = (m.catalogue.entryOrNew field.1).conflict? field.2 field.1 file := by
      intro field hfield
      have hmem : field.1 ∈ Fields.keys rest := List.mem_map_of_mem hfield
      have hne : name ≠ field.1 := fun h => hfresh (h ▸ hmem)
      rw [catalogue_take, Catalogue.entryOrNew_insert, if_neg hne]
    rw [run_cons, ih _ hnodup, conflicts_take, List.filterMap_congr hrest, List.append_assoc]
    cases h : (m.catalogue.entryOrNew name).conflict? e name file <;> simp [h]

end Merging

namespace Catalogue

theorem merge_eq_run (target source : Catalogue) (file : Option String) :
    target.merge source file = Merging.run file { catalogue := target } source.fields :=
  rfl

/-! ## Several catalogues -/

/-- What each of several catalogues gives behind those before it, put together. -/
def behindEarlier {α : Type} (give : List Catalogue → Catalogue → List α)
    (catalogues : List Catalogue) : List α :=
  catalogues.zipIdx.flatMap fun (c, position) => give (catalogues.take position) c

theorem behindEarlier_snoc {α : Type} (give : List Catalogue → Catalogue → List α)
    (earlier : List Catalogue) (c : Catalogue) :
    behindEarlier give (earlier ++ [c]) = behindEarlier give earlier ++ give earlier c := by
  have hearlier : ∀ place ∈ earlier.zipIdx,
      give ((earlier ++ [c]).take place.2) place.1 = give (earlier.take place.2) place.1 := by
    intro place hplace
    have hlt : place.2 < earlier.length := (List.mem_zipIdx' hplace).1
    rw [List.take_append_of_le_length (Nat.le_of_lt hlt)]
  unfold behindEarlier
  rw [List.zipIdx_append, List.flatMap_append, List.flatMap_congr hearlier]
  simp

/-- The names that a catalogue has and none before it. -/
def newNames (earlier : List Catalogue) (c : Catalogue) : List String :=
  c.keys.filter fun name => decide (∀ d ∈ earlier, name ∉ d.keys)

/-- **The first description that catalogues show for a rule.** -/
def firstShown? (catalogues : List Catalogue) (name : String) : Option String :=
  catalogues.findSome? fun c => (c.get? name).bind RuleEntry.shown?

/-- **The conflicts of a catalogue with those before it**: one for each of its rules that shows a
description where one was shown already. -/
def conflictsBehind (earlier : List Catalogue) (c : Catalogue) : List Conflict :=
  c.toList.filterMap fun (name, e) =>
    e.shown?.bind fun rejected => (firstShown? earlier name).map fun kept =>
      ⟨name, Text.trimmed kept, Text.trimmed rejected, none⟩

theorem mergeAll_snoc (earlier : List Catalogue) (c : Catalogue) :
    mergeAll (earlier ++ [c])
      = (mergeAll earlier).followedBy ((mergeAll earlier).catalogue.merge c none) := by
  rw [mergeAll, List.foldl_append]
  rfl

theorem mem_keys_behindEarlier {catalogues : List Catalogue} {name : String} :
    name ∈ behindEarlier newNames catalogues ↔ ∃ c ∈ catalogues, name ∈ c.keys := by
  induction catalogues using List.reverseRecOn with
  | nil => exact iff_of_false (List.not_mem_nil (a := name)) (by simp)
  | append_singleton earlier c ih =>
    rw [behindEarlier_snoc, List.mem_append, ih, newNames, List.mem_filter, decide_eq_true_iff]
    by_cases h : ∃ d ∈ earlier, name ∈ d.keys
    · simp [h]
    · have hnew : ∀ d ∈ earlier, name ∉ d.keys := fun d hd hname => h ⟨d, hd, hname⟩
      simp only [h, false_or, List.mem_singleton, exists_eq_left, List.mem_append, or_and_right,
        exists_or]
      exact and_iff_left hnew

/-- Every name stands where it first appeared. -/
theorem keys_mergeAll (catalogues : List Catalogue) :
    (mergeAll catalogues).catalogue.keys = behindEarlier newNames catalogues := by
  induction catalogues using List.reverseRecOn with
  | nil => rfl
  | append_singleton earlier c ih =>
    have hnew : ∀ name ∈ c.keys,
        decide (name ∉ behindEarlier newNames earlier)
          = decide (∀ d ∈ earlier, name ∉ d.keys) := by
      intro name _
      rw [decide_eq_decide, mem_keys_behindEarlier]
      exact ⟨fun h d hd hname => h ⟨d, hd, hname⟩, fun h ⟨d, hd, hname⟩ => h d hd hname⟩
    rw [mergeAll_snoc, behindEarlier_snoc]
    show ((mergeAll earlier).catalogue.merge c none).catalogue.keys = _
    rw [merge_eq_run, Merging.keys_run none _ c.nodup, ih]
    exact congrArg (_ ++ ·) (List.filter_congr hnew)

/-- What is known of a rule after a catalogue: its entry was merged, if it has one. -/
theorem entryOrNew_mergeAll_snoc (earlier : List Catalogue) (c : Catalogue) (name : String) :
    (mergeAll (earlier ++ [c])).catalogue.entryOrNew name =
      (c.get? name).elim ((mergeAll earlier).catalogue.entryOrNew name)
        ((mergeAll earlier).catalogue.entryOrNew name).absorb := by
  rw [mergeAll_snoc]
  exact Merging.entryOrNew_run none _ c.nodup name

theorem name_mergeAll (catalogues : List Catalogue) (name : String) :
    ((mergeAll catalogues).catalogue.entryOrNew name).name = name := by
  induction catalogues using List.reverseRecOn with
  | nil => rfl
  | append_singleton earlier c ih =>
    rw [entryOrNew_mergeAll_snoc]
    cases c.get? name with
    | none => exact ih
    | some e => exact (RuleEntry.name_absorb _ e).trans ih

/-- **The parameters of a rule** are those of all catalogues, but for the blank ones.  In which
order the catalogues come does not show in them. -/
theorem mem_parameters_mergeAll {catalogues : List Catalogue} {name : String} {p : Parameter} :
    p ∈ ((mergeAll catalogues).catalogue.entryOrNew name).parameters
      ↔ p.isBlank = false ∧ ∃ c ∈ catalogues, ∃ e, c.get? name = some e ∧ p ∈ e.parameters := by
  induction catalogues using List.reverseRecOn with
  | nil => simp [mergeAll, entryOrNew]
  | append_singleton earlier c ih =>
    rw [entryOrNew_mergeAll_snoc]
    cases hget : c.get? name with
    | none => simp [ih, or_and_right, exists_or, hget]
    | some e =>
      simp only [Option.elim_some, RuleEntry.mem_absorb, ih, List.mem_append, List.mem_singleton,
        or_and_right, exists_or, exists_eq_left, hget, Option.some.injEq, exists_eq_left',
        and_or_left, and_comm (a := p ∈ e.parameters)]

theorem firstShown?_snoc (earlier : List Catalogue) (c : Catalogue) (name : String) :
    firstShown? (earlier ++ [c]) name
      = (firstShown? earlier name).or ((c.get? name).bind RuleEntry.shown?) := by
  simp [firstShown?, List.findSome?_append]

/-- What a rule shows is what was first shown for it. -/
theorem shown?_mergeAll (catalogues : List Catalogue) (name : String) :
    ((mergeAll catalogues).catalogue.entryOrNew name).shown? = firstShown? catalogues name := by
  induction catalogues using List.reverseRecOn with
  | nil => rfl
  | append_singleton earlier c ih =>
    rw [entryOrNew_mergeAll_snoc, firstShown?_snoc]
    cases c.get? name with
    | none => simpa using ih
    | some e => simp [RuleEntry.shown?_absorb, ih]

/-- **The description of a rule** is the first one shown, with its blanks, or empty.  Here the order
of the catalogues does show. -/
theorem rawDescription_mergeAll (catalogues : List Catalogue) (name : String) :
    ((mergeAll catalogues).catalogue.entryOrNew name).rawDescription
      = (firstShown? catalogues name).getD "" := by
  rw [← shown?_mergeAll]
  induction catalogues using List.reverseRecOn with
  | nil => rfl
  | append_singleton earlier c ih =>
    rw [entryOrNew_mergeAll_snoc]
    cases c.get? name with
    | none => exact ih
    | some e => exact RuleEntry.rawDescription_absorb ih

theorem conflicts_mergeAll (catalogues : List Catalogue) :
    (mergeAll catalogues).conflicts = behindEarlier conflictsBehind catalogues := by
  induction catalogues using List.reverseRecOn with
  | nil => rfl
  | append_singleton earlier c ih =>
    rw [mergeAll_snoc, behindEarlier_snoc, ← ih]
    show _ ++ ((mergeAll earlier).catalogue.merge c none).conflicts = _
    rw [merge_eq_run, Merging.conflicts_run none _ c.nodup]
    simp only [RuleEntry.conflict?_eq, shown?_mergeAll]
    rfl

theorem told_mergeAll (catalogues : List Catalogue) : (mergeAll catalogues).Told := by
  induction catalogues using List.reverseRecOn with
  | nil => rfl
  | append_singleton earlier c ih =>
    rw [mergeAll_snoc]
    have hstart : Merging.Told { catalogue := (mergeAll earlier).catalogue } := rfl
    exact Merging.told_followedBy ih (Merging.told_run none hstart c.fields)

/-- **Merging keeps catalogues regular**, so what is merged from files meets the hypotheses of the
theorems on reading back. -/
theorem regular_mergeAll {catalogues : List Catalogue} (h : ∀ c ∈ catalogues, c.Regular) :
    (mergeAll catalogues).catalogue.Regular := by
  refine regular_of_entryOrNew fun name hname => ⟨name_mergeAll catalogues name, ?_⟩
  -- The name comes from one of the catalogues, where it is the name of a regular entry.
  rw [keys_mergeAll, mem_keys_behindEarlier] at hname
  obtain ⟨c, hc, hfiled⟩ := hname
  have hsource := (h c hc).entries name _ (get?_of_mem_keys hfiled)
  have hsame : (c.entryOrNew name).name = name := name_entryOrNew (h c hc).filed name
  have hmerged := name_mergeAll catalogues name
  refine ⟨?_, ?_, fun p hp => (mem_parameters_mergeAll.mp hp).1⟩
  · rw [hmerged, ← hsame]
    exact hsource.named
  · rw [hmerged, ← hsame]
    exact hsource.trimmed

/-- **The closed form of merging.**  The names stand in the order in which they first appear.  The
entry of each is filed under its own name, has the parameters of all catalogues that are not blank,
and keeps the first description that is not blank, or none.  The conflicts are, catalogue by
catalogue and rule by rule, the descriptions shown where one was shown before, even an equal one;
and the log tells each of them, in this order. -/
theorem mergeAll_eq_closed_form (catalogues : List Catalogue) :
    (mergeAll catalogues).catalogue.keys = behindEarlier newNames catalogues
      ∧ (∀ name ∈ (mergeAll catalogues).catalogue.keys,
          ∃ e, (mergeAll catalogues).catalogue.get? name = some e ∧ e.name = name
            ∧ (∀ p, p ∈ e.parameters ↔ p.isBlank = false
                ∧ ∃ c ∈ catalogues, ∃ source, c.get? name = some source ∧ p ∈ source.parameters)
            ∧ e.rawDescription = (firstShown? catalogues name).getD "")
      ∧ (mergeAll catalogues).conflicts = behindEarlier conflictsBehind catalogues
      ∧ (mergeAll catalogues).events
          = (behindEarlier conflictsBehind catalogues).map .conflict := by
  have hconflicts := conflicts_mergeAll catalogues
  refine ⟨keys_mergeAll catalogues, fun name hname => ?_, hconflicts, ?_⟩
  · exact ⟨_, get?_of_mem_keys hname, name_mergeAll catalogues name,
      fun p => mem_parameters_mergeAll, rawDescription_mergeAll catalogues name⟩
  · rw [← hconflicts]
    exact told_mergeAll catalogues

end Catalogue

end RuleCatalogue
