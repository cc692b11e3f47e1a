import RuleCatalogue.Proofs.Merge

/-!
# Merging in parts and in another order

Merging is associative, first for entries (`RuleEntry.absorb_assoc`) and then for catalogues
(`Catalogue.catalogue_merge_assoc`), so a list of catalogues may be merged in parts.  It is not
commutative, because the first description shown is kept.

Conflicts are counted rule by rule: of all catalogues that show a description of a rule, the first
has no conflict and each other one has one (`Catalogue.countP_conflicts_mergeAll`).  Such a count
adds up over parts and does not depend on their order.

## Main definitions

* `Catalogue.shows` says that a catalogue shows a description of a rule.
* `Catalogue.timesShown` counts the catalogues that do.

## Design notes

The two halves need different notions.  Regrouping is an equation of catalogues, proved entry by
entry (`Catalogue.ext_entryOrNew`); reordering keeps only counts and sets, and is proved by
permutations of lists.
-/

namespace RuleCatalogue

/-! ## Entries -/

namespace RuleEntry

/-- There is nothing to merge in an entry that knows nothing yet. -/
theorem absorb_new (e : RuleEntry) (name : String) : e.absorb { name } = e := by
  have hnothing : hasDescription { name } = false := rfl
  simp only [absorb, hnothing, Bool.and_false]
  rfl

/-- **Entries may be merged in either grouping**: the parameters are a union, and the description is
the first of three in both. -/
theorem absorb_assoc (first second third : RuleEntry) :
    (first.absorb second).absorb third = first.absorb (second.absorb third) := by
  refine RuleEntry.ext (by simp) (ParameterSet.ext_mem fun p => ?_) ?_
  · simp only [mem_absorb]
    tauto
  · simp only [rawDescription_absorb_eq, shown?_absorb]
    rw [← Option.or_assoc]
    cases first.shown?.or second.shown? with
    | none => rfl
    | some kept => rfl

theorem isSome_shown? (e : RuleEntry) : e.shown?.isSome = e.hasDescription := by
  unfold shown?
  split <;> simp_all

theorem hasDescription_absorb (target source : RuleEntry) :
    (target.absorb source).hasDescription = (target.hasDescription || source.hasDescription) := by
  simp only [← isSome_shown?, shown?_absorb, Option.isSome_or]

/-- A conflict is about the rule that is merged, and needs two descriptions. -/
theorem map_rule_conflict? (target source : RuleEntry) (rule name : String)
    (file : Option String) :
    ((target.conflict? source rule file).map (·.rule == name)).getD false
      = (rule == name && (target.hasDescription && source.hasDescription)) := by
  unfold conflict?
  split
  · next h => simp [h]
  · next h => simpa using fun _ => h

end RuleEntry

namespace Catalogue

/-! ## Catalogues -/

section Merge

variable (target source : Catalogue) (file : Option String)

theorem keys_merge :
    (target.merge source file).catalogue.keys
      = target.keys ++ source.keys.filter fun name => name ∉ target.keys :=
  Merging.keys_run file { catalogue := target } source.nodup

/-- **What is known of a rule is merged**, whether the catalogues have it or not: an empty entry is
neutral for `RuleEntry.absorb` up to its name. -/
theorem entryOrNew_merge (name : String) :
    (target.merge source file).catalogue.entryOrNew name
      = (target.entryOrNew name).absorb (source.entryOrNew name) := by
  rw [merge_eq_run, Merging.entryOrNew_run file _ source.nodup]
  show (source.get? name).elim _ _ = _
  cases hget : source.get? name with
  | none =>
    have hnew : source.entryOrNew name = { name } := by rw [entryOrNew, hget, Option.getD_none]
    rw [hnew, RuleEntry.absorb_new]
    rfl
  | some e =>
    have hknown : source.entryOrNew name = e := by rw [entryOrNew, hget, Option.getD_some]
    rw [hknown]
    rfl

end Merge

/-- Catalogues with the same names in order are equal if they know the same of every rule. -/
theorem ext_entryOrNew {c d : Catalogue} (hkeys : c.keys = d.keys)
    (h : ∀ name, c.entryOrNew name = d.entryOrNew name) : c = d := by
  refine Table.ext_get? hkeys fun name => ?_
  by_cases hname : name ∈ c.keys
  · rw [get?_of_mem_keys hname, get?_of_mem_keys (hkeys ▸ hname), h]
  · rw [Table.get?_eq_none_iff.mpr hname, Table.get?_eq_none_iff.mpr (hkeys ▸ hname)]

/-- **Catalogues may be merged in either grouping**, from whatever files they come: the names of
files show in the conflicts alone. -/
theorem catalogue_merge_assoc (first second third : Catalogue) (f g f' g' : Option String) :
    ((first.merge second f).catalogue.merge third g).catalogue
      = (first.merge (second.merge third f').catalogue g').catalogue := by
  refine ext_entryOrNew ?_ fun name => ?_
  · simp only [keys_merge, List.filter_append, List.filter_filter, List.append_assoc]
    congr 2
    refine List.filter_congr fun name _ => ?_
    -- A name that the first two lack is one that both lack.
    simp only [List.mem_append, List.mem_filter, not_or]
    by_cases hfirst : name ∈ first.keys <;> simp [hfirst]
  · simp only [entryOrNew_merge, RuleEntry.absorb_assoc]

theorem catalogue_mergeAll_snoc (earlier : List Catalogue) (c : Catalogue)
    (file : Option String) :
    (mergeAll (earlier ++ [c])).catalogue
      = ((mergeAll earlier).catalogue.merge c file).catalogue := by
  rw [mergeAll_snoc]
  exact ext_entryOrNew (by rw [keys_merge]; exact keys_merge _ _ none)
    fun name => by rw [entryOrNew_merge]; exact entryOrNew_merge _ _ none name

/-- **A list of catalogues may be merged in two parts**, by `catalogue_merge_assoc` along the second
part. -/
theorem catalogue_mergeAll_append (front back : List Catalogue) (file : Option String) :
    (mergeAll (front ++ back)).catalogue
      = ((mergeAll front).catalogue.merge (mergeAll back).catalogue file).catalogue := by
  induction back using List.reverseRecOn with
  | nil => rw [List.append_nil]; rfl
  | append_singleton back c ih =>
    rw [← List.append_assoc, catalogue_mergeAll_snoc _ c none, ih, catalogue_mergeAll_snoc _ c none]
    exact catalogue_merge_assoc _ _ _ file none none file

/-! ## Conflicts, rule by rule -/

/-- A catalogue shows a description of a rule. -/
def shows (c : Catalogue) (name : String) : Bool :=
  (c.entryOrNew name).hasDescription

/-- **How many catalogues show a description of a rule.** -/
def timesShown (catalogues : List Catalogue) (name : String) : Nat :=
  catalogues.countP (·.shows name)

theorem shows_eq (c : Catalogue) (name : String) :
    c.shows name = (c.get? name).any RuleEntry.hasDescription := by
  rw [shows, entryOrNew]
  cases c.get? name with
  | none => rfl
  | some e => rfl

theorem shows_merge (target source : Catalogue) (file : Option String) (name : String) :
    (target.merge source file).catalogue.shows name = (target.shows name || source.shows name) := by
  rw [shows, entryOrNew_merge, RuleEntry.hasDescription_absorb]
  rfl

theorem timesShown_append (front back : List Catalogue) (name : String) :
    timesShown (front ++ back) name = timesShown front name + timesShown back name :=
  List.countP_append

/-- Merging shows a description if one of the catalogues does. -/
theorem shows_mergeAll (catalogues : List Catalogue) (name : String) :
    (mergeAll catalogues).catalogue.shows name = decide (0 < timesShown catalogues name) := by
  induction catalogues using List.reverseRecOn with
  | nil => rfl
  | append_singleton earlier c ih =>
    rw [catalogue_mergeAll_snoc earlier c none, shows_merge, ih, timesShown_append]
    cases hshows : c.shows name with
    | false => simp [timesShown, hshows]
    | true => simp [timesShown, hshows]

/-- **A catalogue that is merged has a conflict about a rule** where both show a description.  At
most one is possible, since a catalogue has a name once. -/
theorem countP_conflicts_merge (target source : Catalogue) (file : Option String) (name : String) :
    (target.merge source file).conflicts.countP (·.rule == name)
      = (target.shows name && source.shows name).toNat := by
  have habout : ∀ field ∈ source.fields,
      (((target.entryOrNew field.1).conflict? field.2 field.1 file).map (·.rule == name)).getD false
        ↔ field.1 == name && (target.shows name && field.2.hasDescription) := by
    intro field _
    rw [RuleEntry.map_rule_conflict?]
    by_cases hrule : field.1 = name
    · rw [hrule, shows]
    · simp [hrule]
  rw [merge_eq_run, Merging.conflicts_run file _ source.nodup, List.nil_append,
    List.countP_filterMap, List.countP_congr habout,
    Fields.countP_name source.nodup name fun e => target.shows name && e.hasDescription,
    shows_eq source]
  show ((source.get? name).any _).toNat = _
  cases source.get? name with
  | none => simp
  | some e => rfl

theorem conflicts_mergeAll_snoc (earlier : List Catalogue) (c : Catalogue) :
    (mergeAll (earlier ++ [c])).conflicts
      = (mergeAll earlier).conflicts ++ ((mergeAll earlier).catalogue.merge c none).conflicts := by
  rw [mergeAll_snoc]
  rfl

/-- **Of the descriptions that catalogues show for a rule, all but one are conflicts**: the first is
kept and each later one meets it.  The difference is truncated, which is right where none is shown.
-/
theorem countP_conflicts_mergeAll (catalogues : List Catalogue) (name : String) :
    (mergeAll catalogues).conflicts.countP (·.rule == name) = timesShown catalogues name - 1 := by
  induction catalogues using List.reverseRecOn with
  | nil => rfl
  | append_singleton earlier c ih =>
    have hlast : timesShown [c] name = (c.shows name).toNat := by
      cases hshows : c.shows name <;> simp [timesShown, hshows]
    rw [conflicts_mergeAll_snoc, List.countP_append, ih, countP_conflicts_merge, shows_mergeAll,
      timesShown_append, hlast]
    by_cases hearlier : 0 < timesShown earlier name
    · cases c.shows name with
      | false => simp
      | true => simp [hearlier]; omega
    · cases c.shows name with
      | false => simp
      | true => simp [hearlier]; omega

/-- Lists with as many conflicts about every rule are equally long. -/
theorem length_eq_of_countP_rule {first second : List Conflict}
    (h : ∀ name, first.countP (·.rule == name) = second.countP (·.rule == name)) :
    first.length = second.length := by
  have hperm : (first.map Conflict.rule).Perm (second.map Conflict.rule) := by
    refine List.perm_iff_count.mpr fun name => ?_
    rw [List.count_eq_countP, List.count_eq_countP, List.countP_map, List.countP_map]
    exact h name
  simpa using hperm.length_eq

/-- **The conflicts of two parts and those between them** are as many as those of the whole.  They
are not the same ones: a conflict between the parts is reported once, about the first description of
the second part. -/
theorem length_conflicts_mergeAll_append (front back : List Catalogue) (file : Option String) :
    (mergeAll (front ++ back)).conflicts.length
      = (mergeAll front).conflicts.length + (mergeAll back).conflicts.length
        + ((mergeAll front).catalogue.merge (mergeAll back).catalogue file).conflicts.length := by
  rw [← List.length_append, ← List.length_append]
  refine length_eq_of_countP_rule fun name => ?_
  rw [List.countP_append, List.countP_append, countP_conflicts_mergeAll, countP_conflicts_mergeAll,
    countP_conflicts_mergeAll, countP_conflicts_merge, shows_mergeAll, shows_mergeAll,
    timesShown_append]
  by_cases hfront : 0 < timesShown front name
  · by_cases hback : 0 < timesShown back name
    · simp only [hfront, hback, decide_true, Bool.and_self, Bool.toNat_true]
      omega
    · simp only [hback, decide_false, Bool.and_false, Bool.toNat_false]
      omega
  · simp only [hfront, decide_false, Bool.false_and, Bool.toNat_false]
    omega

/-! ## The order of catalogues -/

section Perm

variable {catalogues reordered : List Catalogue} (h : reordered.Perm catalogues)

include h

theorem mem_keys_mergeAll_of_perm (name : String) :
    name ∈ (mergeAll reordered).catalogue.keys ↔ name ∈ (mergeAll catalogues).catalogue.keys := by
  simp only [keys_mergeAll, mem_keys_behindEarlier, h.mem_iff]

theorem parameters_mergeAll_of_perm (name : String) :
    ((mergeAll reordered).catalogue.entryOrNew name).parameters
      = ((mergeAll catalogues).catalogue.entryOrNew name).parameters := by
  refine ParameterSet.ext_mem fun p => ?_
  simp only [mem_parameters_mergeAll, h.mem_iff]

theorem timesShown_of_perm (name : String) :
    timesShown reordered name = timesShown catalogues name :=
  h.countP_eq _

end Perm

/-- What is said of an entry is said of a catalogue. -/
theorem map_get?_congr {α : Type} {c d : Catalogue} {name : String} {f : RuleEntry → α}
    (hkeys : name ∈ c.keys ↔ name ∈ d.keys) (h : f (c.entryOrNew name) = f (d.entryOrNew name)) :
    (c.get? name).map f = (d.get? name).map f := by
  by_cases hname : name ∈ c.keys
  · rw [get?_of_mem_keys hname, get?_of_mem_keys (hkeys.mp hname), Option.map_some, h,
      Option.map_some]
  · rw [Table.get?_eq_none_iff.mpr hname, Table.get?_eq_none_iff.mpr (hkeys.not.mp hname)]

/-- **Merging can be split and reordered.**  What two parts of a list are merged to can be merged to
what the whole list is merged to: the same rules in the same order, each with the same parameters
and the same description.  The conflicts are as many, if those between the parts are counted.  In
any other order of the list there are the same names with the same parameters, the same rules have
a description, and every rule has as many conflicts. -/
theorem mergeAll_regrouped (front back : List Catalogue) (file : Option String) :
    (mergeAll (front ++ back)).catalogue
        = ((mergeAll front).catalogue.merge (mergeAll back).catalogue file).catalogue
      ∧ (mergeAll (front ++ back)).conflicts.length
          = (mergeAll front).conflicts.length + (mergeAll back).conflicts.length
            + ((mergeAll front).catalogue.merge (mergeAll back).catalogue file).conflicts.length
      ∧ ∀ catalogues reordered : List Catalogue, reordered.Perm catalogues → ∀ name,
          (name ∈ (mergeAll reordered).catalogue.keys
              ↔ name ∈ (mergeAll catalogues).catalogue.keys)
            ∧ ((mergeAll reordered).catalogue.get? name).map RuleEntry.parameters
                = ((mergeAll catalogues).catalogue.get? name).map RuleEntry.parameters
            ∧ ((mergeAll reordered).catalogue.get? name).map RuleEntry.hasDescription
                = ((mergeAll catalogues).catalogue.get? name).map RuleEntry.hasDescription
            ∧ (mergeAll reordered).conflicts.countP (·.rule == name)
                = (mergeAll catalogues).conflicts.countP (·.rule == name) := by
  refine ⟨catalogue_mergeAll_append front back file,
    length_conflicts_mergeAll_append front back file, fun catalogues reordered h name => ?_⟩
  have hkeys := mem_keys_mergeAll_of_perm h name
  have htimes := timesShown_of_perm h name
  refine ⟨hkeys, map_get?_congr hkeys (parameters_mergeAll_of_perm h name), map_get?_congr hkeys ?_,
    ?_⟩
  · show (mergeAll reordered).catalogue.shows name = (mergeAll catalogues).catalogue.shows name
    rw [shows_mergeAll, shows_mergeAll, htimes]
  · rw [countP_conflicts_mergeAll, countP_conflicts_mergeAll, htimes]

/-- In the other order the other description is kept, and there is one conflict all the same. -/
theorem mergeAll_regrouped_reversed :
    let told (text : String) : Catalogue :=
      Table.insert ∅ "Foo" { name := "Foo", rawDescription := text }
    let merged := mergeAll [told "a ", told "b"]
    let reversed := mergeAll [told "b", told "a "]
    [told "b", told "a "].Perm [told "a ", told "b"]
      ∧ (merged.catalogue.get? "Foo").map RuleEntry.rawDescription = some "a "
      ∧ (reversed.catalogue.get? "Foo").map RuleEntry.rawDescription = some "b"
      ∧ (reversed.catalogue.get? "Foo").map RuleEntry.hasDescription = some true
      ∧ reversed.conflicts.countP (·.rule == "Foo") = 1 := by
  intro told merged reversed
  have hperm : [told "b", told "a "].Perm [told "a ", told "b"] := .swap _ _ _
  obtain ⟨-, -, hdescription, hconflicts⟩ :=
    (mergeAll_regrouped [] [] none).2.2 [told "a ", told "b"] [told "b", told "a "] hperm "Foo"
  exact ⟨hperm, by decide +kernel, by decide +kernel, hdescription.trans (by decide +kernel),
    hconflicts.trans (by decide +kernel)⟩

end Catalogue

end RuleCatalogue
