import Mathlib.Data.List.Nodup
import RuleCatalogue.CommandLine.Summary
import RuleCatalogue.Proofs.Merge
import RuleCatalogue.Proofs.Report

/-!
# Where rules come from, and how they are listed

A report remembers for each rule the positions of the files that have it.  The memory is kept beside
the merged rules, and the two never part: they have the same names in the same order
(`Report.keys_positions`), and the positions of a rule are exactly those of the files that have it
(`Report.get?_positions`).  So every rule was introduced by one file, the first that has it
(`Report.perm_introduced`).

A listing goes through the files in order and, for each, through the rules that it introduces, by
name.  A rule is shown with two numbers: its number in its file, and its number in the whole.  Each
rule stands in one place (`Report.perm_placements`), so both numberings count from one without gaps,
and the numbers of a rule are the same whether it is listed with the others or alone.

## Main definitions

* `Report.positionsOf` lists the positions of the files that have a rule.
* `Report.Accounts` says what a report tells about the files that it was made of.
* `Placement` is the place of a rule in the listing, and `Report.placements` are all of them.
* `Report.Listed` says what is listed of a report.

## Design notes

Files are told apart by their positions alone: a path may be given twice, and two paths may end in
the same name.  All inductions are on the end of the list of files, because a report grows there.
-/

/-! ## Where rules come from -/

namespace RuleCatalogue

namespace Report

/-! ## The positions of a rule -/

/-- Whether a file was read and has a rule. -/
def gives (rule : String) (file : Path × Outcome) : Bool :=
  match file.2 with
  | .ok rules => decide (rule ∈ rules.keys)
  | .error _ => false

/-- **The positions of the files that have a rule**, in increasing order. -/
def positionsOf (rule : String) (outcomes : List (Path × Outcome)) : List Nat :=
  (List.range outcomes.length).filter fun position => outcomes[position]?.any (gives rule)

theorem gives_iff {rule : String} {file : Path × Outcome} :
    gives rule file ↔ ∃ rules, file.2 = .ok rules ∧ rule ∈ rules.keys := by
  obtain ⟨path, outcome⟩ := file
  cases outcome with
  | error failure => simp [gives]
  | ok rules => simp [gives]

/-- A position is listed exactly if the file there was read and has the rule. -/
theorem mem_positionsOf {rule : String} {outcomes : List (Path × Outcome)} {position : Nat} :
    position ∈ positionsOf rule outcomes
      ↔ ∃ path rules, outcomes[position]? = some (path, .ok rules) ∧ rule ∈ rules.keys := by
  rw [positionsOf, List.mem_filter, List.mem_range, Option.any_eq_true]
  constructor
  · rintro ⟨-, ⟨path, outcome⟩, hfile, hgives⟩
    obtain ⟨rules, rfl, hrule⟩ := gives_iff.mp hgives
    exact ⟨path, rules, hfile, hrule⟩
  · rintro ⟨path, rules, hfile, hrule⟩
    obtain ⟨hlt, -⟩ := List.getElem?_eq_some_iff.mp hfile
    exact ⟨hlt, _, hfile, gives_iff.mpr ⟨rules, rfl, hrule⟩⟩

theorem pairwise_positionsOf (rule : String) (outcomes : List (Path × Outcome)) :
    (positionsOf rule outcomes).Pairwise (· < ·) :=
  List.pairwise_lt_range.filter _

theorem positionsOf_snoc (rule : String) (earlier : List (Path × Outcome))
    (file : Path × Outcome) :
    positionsOf rule (earlier ++ [file])
      = positionsOf rule earlier ++ if gives rule file then [earlier.length] else [] := by
  have hearlier : ∀ position ∈ List.range earlier.length,
      (earlier ++ [file])[position]?.any (gives rule)
        = earlier[position]?.any (gives rule) := by
    intro position hposition
    rw [List.getElem?_append_left (List.mem_range.mp hposition)]
  rw [positionsOf, List.length_append, List.length_singleton, List.range_succ, List.filter_append,
    List.filter_congr hearlier]
  cases hgives : gives rule file <;> simp [positionsOf, hgives]

/-! ## What a report remembers -/

section Note

variable (position : Nat)

theorem note_cons (positions : Table (List Nat)) (name : String) (names : List String) :
    note position positions (name :: names)
      = note position (positions.insert name ((positions.get? name).getD [] ++ [position]))
          names :=
  rfl

/-- The names that are new stand behind the others. -/
theorem keys_note (positions : Table (List Nat)) {names : List String} (nodup : names.Nodup) :
    (note position positions names).keys
      = positions.keys ++ names.filter fun name => name ∉ positions.keys := by
  induction names generalizing positions with
  | nil => simp [note]
  | cons name rest ih =>
    obtain ⟨hfresh, hnodup⟩ := List.nodup_cons.mp nodup
    rw [note_cons, ih _ hnodup, Table.keys_insert]
    by_cases hname : name ∈ positions.keys
    · rw [if_pos hname, List.filter_cons_of_neg (by simpa using hname)]
    · -- The name goes to the end, and is not met again in the rest.
      have hrest : ∀ other ∈ rest,
          decide (other ∉ positions.keys ++ [name]) = decide (other ∉ positions.keys) := by
        intro other hother
        have hne : other ≠ name := fun h => hfresh (h ▸ hother)
        simp [hne]
      rw [if_neg hname, List.filter_cons_of_pos (by simpa using hname), List.filter_congr hrest,
        List.append_assoc, List.singleton_append]

/-- The position is added to those of the names, and to no others. -/
theorem get?_note (positions : Table (List Nat)) {names : List String} (nodup : names.Nodup)
    (name : String) :
    (note position positions names).get? name =
      if name ∈ names then some ((positions.get? name).getD [] ++ [position])
      else positions.get? name := by
  induction names generalizing positions with
  | nil => rfl
  | cons first rest ih =>
    obtain ⟨hfresh, hnodup⟩ := List.nodup_cons.mp nodup
    rw [note_cons, ih _ hnodup, Table.get?_insert]
    by_cases hname : first = name
    · subst hname
      simp [hfresh]
    · have hne : name ≠ first := fun h => hname h.symm
      simp [hname, hne]

end Note

variable (outcomes : List (Path × Outcome))

/-- **The positions and the rules have the same names in the same order**, so looking up the
positions of a rule of the report never fails. -/
theorem keys_positions :
    (ofOutcomes outcomes).1.positions.keys = (ofOutcomes outcomes).1.catalogue.keys := by
  induction outcomes using List.reverseRecOn with
  | nil => rfl
  | append_singleton earlier file ih =>
    obtain ⟨path, outcome⟩ := file
    rw [ofOutcomes_snoc]
    cases outcome with
    | error failure => exact ih
    | ok rules =>
      have hnodup : rules.keys.Nodup := rules.nodup
      simp only [add]
      rw [keys_note _ _ hnodup, Catalogue.merge_eq_run, Merging.keys_run _ _ rules.nodup, ih]
      rfl

/-- **The positions of a rule are those of the files that have it**; a rule that no file has is not
there.  They are increasing, as `positionsOf` counts the files from the first. -/
theorem get?_positions (rule : String) :
    (ofOutcomes outcomes).1.positions.get? rule =
      if positionsOf rule outcomes = [] then none else some (positionsOf rule outcomes) := by
  induction outcomes using List.reverseRecOn with
  | nil => rfl
  | append_singleton earlier file ih =>
    obtain ⟨path, outcome⟩ := file
    rw [ofOutcomes_snoc, positionsOf_snoc]
    cases outcome with
    | error failure => simpa [add, gives] using ih
    | ok rules =>
      have hfiles : (ofOutcomes earlier).1.files.length = earlier.length := by
        rw [(ofOutcomes_accounts earlier).1, List.length_map]
      have hnodup : rules.keys.Nodup := rules.nodup
      simp only [add]
      rw [get?_note _ _ hnodup, ih, hfiles]
      by_cases hrule : rule ∈ rules.keys
      · -- Whether the rule was known or not, its positions are the earlier ones and this one.
        have hgives : gives rule (path, .ok rules) = true := by simp [gives, hrule]
        cases hknown : positionsOf rule earlier <;> simp [hgives, hrule]
      · have hgives : gives rule (path, .ok rules) = false := by simp [gives, hrule]
        simp [hgives, hrule]

/-! ## The file that introduces a rule -/

variable {outcomes}

theorem mem_introducedBy {report : Report} {position : Nat} {rule : String} :
    rule ∈ report.introducedBy position ↔ report.firstPosition? rule = some position := by
  have hentry : ∀ positions, (rule, positions) ∈ report.positions.toList
      ↔ report.positions.get? rule = some positions :=
    fun positions => (Fields.get?_eq_some_iff report.positions.nodup).symm
  simp only [introducedBy, List.mem_mergeSort, List.mem_map, List.mem_filter, decide_eq_true_eq,
    firstPosition?, Option.bind_eq_some_iff, Prod.exists, exists_and_right, exists_eq_right, hentry]

theorem nodup_introducedBy (report : Report) (position : Nat) :
    (report.introducedBy position).Nodup := by
  have hnodup : (report.positions.toList.map Prod.fst).Nodup := report.positions.nodup
  rw [introducedBy, (List.mergeSort_perm _ _).nodup_iff]
  exact hnodup.sublist (List.filter_sublist.map Prod.fst)

/-- The first position of a rule is that of a file, if there is one. -/
theorem firstPosition?_ofOutcomes (outcomes : List (Path × Outcome)) (rule : String) :
    (ofOutcomes outcomes).1.firstPosition? rule = (positionsOf rule outcomes).head? := by
  rw [firstPosition?, get?_positions]
  cases positionsOf rule outcomes <;> simp

theorem lt_length_of_firstPosition? {rule : String} {position : Nat}
    (h : (ofOutcomes outcomes).1.firstPosition? rule = some position) :
    position < (ofOutcomes outcomes).1.files.length := by
  rw [firstPosition?_ofOutcomes] at h
  obtain ⟨path, rules, hfile, -⟩ := mem_positionsOf.mp (List.mem_of_mem_head? h)
  obtain ⟨hlt, -⟩ := List.getElem?_eq_some_iff.mp hfile
  rwa [(ofOutcomes_accounts outcomes).1, List.length_map]

theorem mem_keys_iff {rule : String} :
    rule ∈ (ofOutcomes outcomes).1.catalogue.keys
      ↔ ∃ position, (ofOutcomes outcomes).1.firstPosition? rule = some position := by
  rw [firstPosition?_ofOutcomes, ← keys_positions, ← not_iff_not, ← Table.get?_eq_none_iff,
    get?_positions]
  cases positionsOf rule outcomes <;> simp

/-- **The files share the rules out**: what they introduce, file by file, are all rules, each once.
A rule is introduced by the first file that has it, which is why the shares are disjoint. -/
theorem perm_introduced (outcomes : List (Path × Outcome)) :
    ((List.range (ofOutcomes outcomes).1.files.length).flatMap
        (ofOutcomes outcomes).1.introducedBy).Perm (ofOutcomes outcomes).1.catalogue.keys := by
  have hnodup : ((List.range (ofOutcomes outcomes).1.files.length).flatMap
      (ofOutcomes outcomes).1.introducedBy).Nodup := by
    refine List.nodup_flatMap.mpr ⟨fun position _ => nodup_introducedBy _ position, ?_⟩
    refine List.pairwise_lt_range.imp ?_
    -- A rule has one first position.
    intro first second hlt rule hfirst hsecond
    have hsame := (mem_introducedBy.mp hfirst).symm.trans (mem_introducedBy.mp hsecond)
    exact absurd (Option.some.inj hsame) (Nat.ne_of_lt hlt)
  refine (List.perm_ext_iff_of_nodup hnodup (ofOutcomes outcomes).1.catalogue.nodup).mpr ?_
  intro rule
  simp only [List.mem_flatMap, List.mem_range, mem_introducedBy]
  refine Iff.trans ?_ mem_keys_iff.symm
  constructor
  · rintro ⟨position, -, hposition⟩
    exact ⟨position, hposition⟩
  · rintro ⟨position, hposition⟩
    exact ⟨position, lt_length_of_firstPosition? hposition, hposition⟩

/-! ## Everything together -/

/-- Whether a file was read. -/
def isRead (file : Path × Outcome) : Bool :=
  (rulesOf? file).isSome

theorem filterMap_rulesOf?_filter (outcomes : List (Path × Outcome)) :
    (outcomes.filter isRead).filterMap rulesOf? = outcomes.filterMap rulesOf? := by
  rw [List.filterMap_filter]
  refine List.filterMap_congr ?_
  intro file _
  cases hrules : rulesOf? file <;> simp [isRead, hrules]

/-- **What a report tells about its files**: every file, every failure and every rule is accounted
for once. -/
structure Accounts (outcomes : List (Path × Outcome)) (report : Report) : Prop where
  files : report.files = outcomes.map Prod.fst
  failures : report.failures = outcomes.filterMap failureOf?
  /-- The rules and conflicts are those of the files that were read. -/
  merged : (report.catalogue, report.conflicts)
    = ((ofOutcomes (outcomes.filter isRead)).1.catalogue,
        (ofOutcomes (outcomes.filter isRead)).1.conflicts)
  named : ∀ rule, (report.catalogue.entryOrNew rule).name = rule
  keys : report.positions.keys = report.catalogue.keys
  /-- The positions of a rule are those of the files that have it, in increasing order. -/
  positions : ∀ rule ∈ report.catalogue.keys,
    ∃ positions, report.positions.get? rule = some positions ∧ positions.Pairwise (· < ·)
      ∧ ∀ position, position ∈ positions
          ↔ ∃ path rules, outcomes[position]? = some (path, .ok rules) ∧ rule ∈ rules.keys
  introduced : ((List.range outcomes.length).flatMap report.introducedBy).Perm
    report.catalogue.keys
  introducedBy : ∀ position rule, rule ∈ report.introducedBy position
    ↔ ∃ positions, report.positions.get? rule = some positions ∧ positions.head? = some position

theorem name_ofOutcomes (outcomes : List (Path × Outcome)) (rule : String) :
    ((ofOutcomes outcomes).1.catalogue.entryOrNew rule).name = rule := by
  induction outcomes using List.reverseRecOn with
  | nil => rfl
  | append_singleton earlier file ih =>
    obtain ⟨path, outcome⟩ := file
    rw [ofOutcomes_snoc]
    cases outcome with
    | error failure => exact ih
    | ok rules =>
      simp only [add]
      rw [Catalogue.merge_eq_run, Merging.entryOrNew_run _ _ rules.nodup]
      cases Fields.get? rule rules.fields with
      | none => exact ih
      | some e => exact (RuleEntry.name_absorb _ e).trans ih

theorem accounts_ofOutcomes (outcomes : List (Path × Outcome)) :
    Accounts outcomes (ofOutcomes outcomes).1 := by
  obtain ⟨hfiles, hfailures, hmerged⟩ := ofOutcomes_accounts outcomes
  obtain ⟨-, -, hread⟩ := ofOutcomes_accounts (outcomes.filter isRead)
  refine ⟨hfiles, hfailures, ?_, name_ofOutcomes outcomes, keys_positions outcomes, ?_, ?_, ?_⟩
  · rw [hmerged, hread, filterMap_rulesOf?_filter]
  · intro rule hrule
    have hne : positionsOf rule outcomes ≠ [] := by
      intro hnone
      obtain ⟨position, hposition⟩ := mem_keys_iff.mp hrule
      rw [firstPosition?_ofOutcomes, hnone] at hposition
      cases hposition
    refine ⟨positionsOf rule outcomes, ?_, pairwise_positionsOf rule outcomes, ?_⟩
    · rw [get?_positions, if_neg hne]
    · exact fun position => mem_positionsOf
  · have hperm := perm_introduced outcomes
    rwa [hfiles, List.length_map] at hperm
  · intro position rule
    rw [mem_introducedBy, firstPosition?, Option.bind_eq_some_iff]

end Report

end RuleCatalogue

/-! ## How rules are numbered when they are listed -/

namespace RuleCatalogue

/-- **The place of a rule in a listing**: the file that introduced it, and its number there. -/
structure Placement where
  rule : String
  position : Nat
  index : Nat
  path : Path
deriving DecidableEq, Repr

namespace Report

/-- The places of the rules that a file introduces. -/
def placementsIn (report : Report) (path : Path) (position : Nat) : List Placement :=
  (report.introducedBy position).zipIdx.map fun (rule, index) =>
    { rule, position, index := index + 1, path }

/-- **The places of all rules**, in the order of the listing. -/
def placements (report : Report) : List Placement :=
  report.files.zipIdx.flatMap fun (path, position) => report.placementsIn path position

/-- The lines of a rule at its place, with its number in the whole. -/
def block (report : Report) (p : Placement) (number : Nat) : List String :=
  (report.catalogue.entryOrNew p.rule).listing p.index number p.path.name

variable {report : Report}

theorem introductions_eq (report : Report) :
    report.introductions = report.placements.map fun p => (p.rule, p.index, p.path) := by
  simp only [introductions, placements, placementsIn, List.map_flatMap, List.map_map]
  rfl

/-! ## One place among all -/

/-- Where one place alone gives something, all places together give just that. -/
theorem flatMap_zipIdx_of_alone {α β : Type} {f : α × Nat → List β} {l : List α} {place : Nat}
    {a : α} (h : l[place]? = some a) (start : Nat)
    (halone : ∀ x ∈ l.zipIdx start, x.2 ≠ start + place → f x = []) :
    (l.zipIdx start).flatMap f = f (a, start + place) := by
  induction l generalizing place start with
  | nil => cases h
  | cons b rest ih =>
    rw [List.zipIdx_cons] at halone ⊢
    rw [List.flatMap_cons]
    cases place with
    | zero =>
      obtain rfl : b = a := Option.some.inj h
      have hrest : (rest.zipIdx (start + 1)).flatMap f = [] := by
        refine List.flatMap_eq_nil_iff.mpr ?_
        intro x hx
        have hlater : start + 1 ≤ x.2 := List.le_snd_of_mem_zipIdx hx
        exact halone x (List.mem_cons_of_mem _ hx) (by omega)
      rw [hrest, List.append_nil]
      rfl
    | succ place =>
      have hfirst : f (b, start) = [] := halone _ List.mem_cons_self (by simp)
      have hsum : start + (place + 1) = start + 1 + place := by omega
      rw [hfirst, List.nil_append, hsum]
      refine ih h (start + 1) ?_
      intro x hx hne
      exact halone x (List.mem_cons_of_mem _ hx) (hsum ▸ hne)

/-! ## One file -/

theorem map_rule_placementsIn (report : Report) (path : Path) (position : Nat) :
    (report.placementsIn path position).map Placement.rule = report.introducedBy position := by
  rw [placementsIn, List.map_map]
  exact List.zipIdx_map_fst 0 _

/-- **The rules of a file are counted from one**, without gaps, over the rules that this file
introduces. -/
theorem map_index_placementsIn (report : Report) (path : Path) (position : Nat) :
    (report.placementsIn path position).map Placement.index
      = List.range' 1 (report.introducedBy position).length := by
  have hindices := List.zipIdx_map_snd 0 (report.introducedBy position)
  rw [placementsIn, List.map_map, List.range'_eq_map_range, List.range_eq_range', ← hindices,
    List.map_map]
  refine List.map_congr_left ?_
  rintro ⟨rule, index⟩ -
  exact Nat.add_comm index 1

theorem of_mem_placementsIn {path : Path} {position : Nat} {p : Placement}
    (h : p ∈ report.placementsIn path position) :
    p.position = position ∧ p.path = path ∧ p.rule ∈ report.introducedBy position := by
  obtain ⟨⟨rule, index⟩, hrule, rfl⟩ := List.mem_map.mp h
  exact ⟨rfl, rfl, (List.mem_zipIdx' hrule).2 ▸ List.getElem_mem _⟩

/-! ## All files -/

theorem of_mem_placements {p : Placement} (h : p ∈ report.placements) :
    report.files[p.position]? = some p.path ∧ p.rule ∈ report.introducedBy p.position := by
  obtain ⟨⟨path, position⟩, hfile, hp⟩ := List.mem_flatMap.mp h
  obtain ⟨rfl, rfl, hrule⟩ := of_mem_placementsIn hp
  exact ⟨List.mem_zipIdx_iff_getElem?.mp hfile, hrule⟩

/-- What stands in the listing for a file is all that stands there of it. -/
theorem filter_placements {position : Nat} {path : Path}
    (h : report.files[position]? = some path) :
    report.placements.filter (fun p => p.position = position)
      = report.placementsIn path position := by
  have hone : ∀ file ∈ report.files.zipIdx,
      (report.placementsIn file.1 file.2).filter (fun p => p.position = position)
        = if file.2 = position then report.placementsIn path position else [] := by
    rintro ⟨other, place⟩ hfile
    have hother := List.mem_zipIdx_iff_getElem?.mp hfile
    by_cases hplace : place = position
    · subst hplace
      obtain rfl : other = path := Option.some.inj (hother.symm.trans h)
      rw [if_pos rfl, List.filter_eq_self]
      intro p hp
      exact decide_eq_true (of_mem_placementsIn hp).1
    · rw [if_neg hplace, List.filter_eq_nil_iff]
      intro p hp hposition
      exact hplace ((of_mem_placementsIn hp).1.symm.trans (of_decide_eq_true hposition))
  rw [placements, List.filter_flatMap, List.flatMap_congr hone]
  refine (flatMap_zipIdx_of_alone h 0 ?_).trans ?_
  · intro file _ hne
    exact if_neg (by simpa using hne)
  · exact if_pos (Nat.zero_add position)

/-- The places follow the order of the files. -/
theorem pairwise_placements (report : Report) :
    report.placements.Pairwise fun p q => p.position ≤ q.position := by
  refine List.pairwise_flatMap.mpr ⟨?_, ?_⟩
  · rintro ⟨path, position⟩ -
    refine List.Pairwise.imp_of_mem ?_ (List.pairwise_of_forall fun _ _ => trivial)
    intro p q hp hq _
    rw [(of_mem_placementsIn hp).1, (of_mem_placementsIn hq).1]
  · have hpositions : report.files.zipIdx.Pairwise fun file later => file.2 < later.2 := by
      rw [← List.pairwise_map (R := (· < ·)) (f := Prod.snd), List.zipIdx_map_snd]
      exact List.pairwise_lt_range'
    refine hpositions.imp ?_
    rintro ⟨path, position⟩ ⟨path', position'⟩ hlt p hp q hq
    rw [(of_mem_placementsIn hp).1, (of_mem_placementsIn hq).1]
    exact Nat.le_of_lt hlt

/-! ## What is listed -/

section Listings

variable {outcomes : List (Path × Outcome)}

/-- **Each rule has one place**, by `perm_introduced`: a place is made for each rule that some file
introduces. -/
theorem perm_placements (outcomes : List (Path × Outcome)) :
    ((ofOutcomes outcomes).1.placements.map Placement.rule).Perm
      (ofOutcomes outcomes).1.catalogue.keys := by
  have hrules : (ofOutcomes outcomes).1.placements.map Placement.rule
      = (List.range (ofOutcomes outcomes).1.files.length).flatMap
          (ofOutcomes outcomes).1.introducedBy := by
    rw [placements, List.map_flatMap, List.range_eq_range', ← List.zipIdx_map_snd 0,
      List.flatMap_map]
    simp only [map_rule_placementsIn]
  exact hrules ▸ perm_introduced outcomes

/-- The rule of a place is there. -/
theorem get?_of_mem_placements {p : Placement}
    (h : p ∈ (ofOutcomes outcomes).1.placements) :
    (ofOutcomes outcomes).1.catalogue.get? p.rule
      = some ((ofOutcomes outcomes).1.catalogue.entryOrNew p.rule) := by
  have hrule : p.rule ∈ (ofOutcomes outcomes).1.placements.map Placement.rule :=
    List.mem_map_of_mem h
  exact Catalogue.get?_of_mem_keys ((perm_placements outcomes).mem_iff.mp hrule)

/-- What is listed are the blocks of the places that are asked for. -/
theorem listings_eq (outcomes : List (Path × Outcome)) (selected : Option String) :
    (ofOutcomes outcomes).1.listings selected =
      (ofOutcomes outcomes).1.placements.zipIdx.flatMap fun (p, total) =>
        if selected.all (· == p.rule) then (ofOutcomes outcomes).1.block p (total + 1) else [] := by
  rw [listings, introductions_eq, List.zipIdx_map, List.flatMap_map]
  refine List.flatMap_congr ?_
  rintro ⟨p, total⟩ hp
  have hget := get?_of_mem_placements (List.fst_mem_of_mem_zipIdx hp)
  dsimp only [Prod.map, id]
  rw [hget]
  rfl

/-- **Listed alone, a rule keeps its numbers**: the number in its file and the number `total + 1` in
the whole are those of the full listing. -/
theorem listings_some {p : Placement} {total : Nat}
    (h : (ofOutcomes outcomes).1.placements[total]? = some p) :
    (ofOutcomes outcomes).1.listings (some p.rule)
      = (ofOutcomes outcomes).1.block p (total + 1) := by
  have hnodup : ((ofOutcomes outcomes).1.placements.map Placement.rule).Nodup :=
    (perm_placements outcomes).nodup_iff.mpr (ofOutcomes outcomes).1.catalogue.nodup
  rw [listings_eq]
  refine (flatMap_zipIdx_of_alone h 0 ?_).trans ?_
  · rintro ⟨q, place⟩ hq hne
    -- The rule stands in one place only.
    have hother := List.mem_zipIdx_iff_getElem?.mp hq
    refine if_neg ?_
    intro hsame
    have hrule : p.rule = q.rule := by simpa using hsame
    have hplaces : ((ofOutcomes outcomes).1.placements.map Placement.rule)[place]?
        = ((ofOutcomes outcomes).1.placements.map Placement.rule)[total]? := by
      rw [List.getElem?_map, List.getElem?_map, hother, h, Option.map_some, Option.map_some, hrule]
    obtain ⟨hlt, -⟩ := List.getElem?_eq_some_iff.mp hother
    have hplace : place = total := (List.getElem?_inj (by simpa using hlt) hnodup).mp hplaces
    exact hne (hplace.trans (Nat.zero_add total).symm)
  · simp

/-- **What is listed of a report**: every rule once, numbered in its file and in the whole from one
without gaps, and with the same two numbers if it is listed alone. -/
structure Listed (report : Report) : Prop where
  rules : (report.placements.map Placement.rule).Perm report.catalogue.keys
  placed : ∀ p ∈ report.placements,
    report.files[p.position]? = some p.path ∧ p.rule ∈ report.introducedBy p.position
  ordered : report.placements.Pairwise fun p q => p.position ≤ q.position
  counted : ∀ position < report.files.length,
    (report.placements.filter fun p => p.position = position).map Placement.index
      = List.range' 1 (report.introducedBy position).length
  together : report.listings none
    = report.placements.zipIdx.flatMap fun (p, total) => report.block p (total + 1)
  alone : ∀ total p, report.placements[total]? = some p →
    report.listings (some p.rule) = report.block p (total + 1)

theorem listed_ofOutcomes (outcomes : List (Path × Outcome)) : (ofOutcomes outcomes).1.Listed where
  rules := perm_placements outcomes
  placed _ := of_mem_placements
  ordered := pairwise_placements _
  counted position hlt := by
    rw [filter_placements (List.getElem?_eq_getElem hlt), map_index_placementsIn]
  together := by simpa using listings_eq outcomes none
  alone _ _ := listings_some

end Listings

end Report

end RuleCatalogue
