import RuleCatalogue.Proofs.Toml.Reading
import RuleCatalogue.Settings.Layers

/-!
# Overlays and their laws

A table laid over another one is described by the answers of the two: for the names of a table
(`get?_overlay`) and, where its sections are tables, for their fields (`fieldAt_overlay`).  A value
replaces what was there before unless both are tables; a value with distinct names that is laid
over nothing is left as it is (`overlayValue_none_of_distinct`).

The empty table changes nothing on either side, a layer that is laid over a second time changes
nothing more, and layers that agree on where tables are may be grouped in any way.  All of this
holds with the order of names, which is the same at every level: those of the lower table first, in
their places, then those that only the upper one has.

## Main definitions

* `laid`: an overlay as one name sees it, where both sides may have a value or none;
* `valueAt`: what a value holds at a path of names through the tables inside;
* `Concordant`: two values with tables at the same paths, as far as both have something there.

## Main results

* `keys_overlay`, `valueAt_overlay`: the names of an overlay, and its value at a path;
* `overlay_self`, `overlay_assoc`: the two laws that need an induction;
* `overlay_laws`: all of them, and the order of names at each level.

## Design notes

An overlay is determined by its names and by its answers (`Fields.ext_get?`), and the answers of
`overlay base upper` are those of the two, combined by `laid`.  Each law is therefore proved for
one name first, where it is a distinction of who has a table, and the induction is on the uppermost
value alone: it is the only one whose tables are gone through.
-/

/-! ## Laws of overlays -/

namespace RuleCatalogue.Settings

variable {base upper fields : Fields Value} {name key : String} {v : Value}

theorem overlayValue_table (before : Option Value) (fields : Fields Value) :
    overlayValue before (.table fields)
      = .table (overlay ((before.map tableFields).getD []) fields) := by
  rw [overlayValue]

/-- What is no table replaces what was there before. -/
theorem overlayValue_of_not_table (h : ∀ fields, v ≠ .table fields) (before : Option Value) :
    overlayValue before v = v := by
  rw [overlayValue]
  exact h

/-! ## Names -/

theorem nodup_keys_overlay (h : base.keys.Nodup) (upper : Fields Value) :
    (overlay base upper).keys.Nodup := by
  induction upper generalizing base with
  | nil => rwa [overlay]
  | cons field rest ih =>
    rw [overlay]
    exact ih (Fields.nodup_keys_insert h)

/-- **The answers of an overlay**, name by name.  `nodup` is needed of the upper table alone, whose
fields are laid one after another. -/
theorem get?_overlay (nodup : upper.keys.Nodup) (name : String) :
    (overlay base upper).get? name
      = ((upper.get? name).map (overlayValue (base.get? name))).or (base.get? name) := by
  induction upper generalizing base with
  | nil => rw [overlay]; rfl
  | cons field rest ih =>
    obtain ⟨first, w⟩ := field
    obtain ⟨hfresh, hrest⟩ := List.nodup_cons.mp nodup
    rw [overlay, ih hrest, Fields.get?_insert, Fields.get?]
    by_cases hname : first = name
    · -- The name does not stand again in the rest, whose fields leave it alone.
      subst hname
      rw [Fields.get?_eq_none_iff.mpr hfresh, if_pos rfl, if_pos rfl]
      rfl
    · rw [if_neg hname, if_neg hname]

/-- No name gets lost. -/
theorem mem_keys_overlay (nodup : upper.keys.Nodup) :
    name ∈ (overlay base upper).keys ↔ name ∈ upper.keys ∨ name ∈ base.keys := by
  have hmem (fields : Fields Value) : name ∈ fields.keys ↔ fields.get? name ≠ none := by
    rw [ne_eq, Fields.get?_eq_none_iff, Decidable.not_not]
  rw [hmem, hmem, hmem, get?_overlay nodup]
  cases hover : upper.get? name <;> simp

/-! ## Values laid over nothing -/

theorem overlay_eq_append (nodup : (Fields.keys (base ++ fields)).Nodup)
    (all : ∀ field ∈ fields, overlayValue none field.2 = field.2) :
    overlay base fields = base ++ fields := by
  induction fields generalizing base with
  | nil => rw [overlay, List.append_nil]
  | cons field rest ih =>
    obtain ⟨first, w⟩ := field
    have hfresh : first ∉ base.keys := by
      rw [Fields.keys_append] at nodup
      exact fun hbase => (List.nodup_append.mp nodup).2.2 _ hbase _ List.mem_cons_self rfl
    have hw : overlayValue none w = w := all (first, w) List.mem_cons_self
    rw [overlay, Fields.get?_eq_none_iff.mpr hfresh, hw, Fields.insert_of_not_mem hfresh]
    rw [List.append_cons] at nodup
    rw [List.append_cons base (first, w) rest]
    exact ih nodup fun field h => all field (List.mem_cons_of_mem _ h)

/-- **Laid over nothing**, a value without repeated names is what it was.  With a repeated name the
later field would hide the earlier one. -/
theorem overlayValue_none_of_distinct (h : v.Distinct) : overlayValue none v = v := by
  induction h with
  | leaf h =>
    refine overlayValue_of_not_table (fun fields hv => ?_) none
    rw [hv] at h
    exact nomatch h
  | list all => exact overlayValue_of_not_table (by rintro _ ⟨⟩) none
  | @table fields nodup all ih =>
    have hfields : overlay [] fields = [] ++ fields := by
      refine overlay_eq_append nodup fun (name, v) hfield => ?_
      exact ih name v ((Fields.get?_eq_some_iff nodup).mpr hfield)
    rw [overlayValue_table, Option.map_none, Option.getD_none, hfields, List.nil_append]

/-! ## Fields of sections -/

/-- **The value of a field** in a section of a table, if the section is a table that has it. -/
def fieldAt (config : Fields Value) (name key : String) : Option Value :=
  (config.get? name).bind fun v => Fields.get? key (tableFields v)

theorem fieldAt_of_get? {config : Fields Value} (h : config.get? name = some (.table fields)) :
    fieldAt config name key = fields.get? key := by
  rw [fieldAt, h]
  rfl

/-- There is a field where there is a section that has it. -/
theorem fieldAt_eq_some_iff {config : Fields Value} :
    fieldAt config name key = some v
      ↔ ∃ fields, config.get? name = some (.table fields) ∧ Fields.get? key fields = some v := by
  constructor
  · intro h
    obtain ⟨w, hget, hkey⟩ := Option.bind_eq_some_iff.mp h
    cases w with
    | table fields => exact ⟨fields, hget, hkey⟩
    | _ => cases hkey
  · rintro ⟨fields, hget, hkey⟩
    rw [fieldAt_of_get? hget, hkey]

/-- **A layer** as far as a section goes: where it has the section, that is a table. -/
structure HasSection (layer : Fields Value) (name : String) : Prop where
  nodup : layer.keys.Nodup
  inner : ∀ v, layer.get? name = some v → ∃ fields, v = .table fields ∧ (Fields.keys fields).Nodup

/-- **The fields of an overlay.** `HasSection` asks that the section is a table in the upper layer,
if it is there: anything else would hide the section of the lower one. -/
theorem fieldAt_overlay (h : HasSection upper name) (key : String) :
    fieldAt (overlay base upper) name key
      = ((fieldAt upper name key).map (overlayValue (fieldAt base name key))).or
          (fieldAt base name key) := by
  rw [fieldAt, get?_overlay h.nodup]
  cases hover : upper.get? name with
  | none => simp [fieldAt, hover]
  | some v =>
    obtain ⟨fields, rfl, nodup⟩ := h.inner v hover
    have hbase : Fields.get? key (((base.get? name).map tableFields).getD [])
        = fieldAt base name key := by
      rw [fieldAt]
      cases base.get? name <;> rfl
    have hover : fieldAt upper name key = Fields.get? key fields := by
      rw [fieldAt, hover]
      rfl
    rw [Option.map_some, Option.some_or, Option.bind_some, overlayValue_table, tableFields,
      get?_overlay nodup, hbase, hover]

/-- A field that is no table covers the one below. -/
theorem fieldAt_overlay_of_not_table (h : HasSection upper name)
    (hplain : ∀ fields, fieldAt upper name key ≠ some (.table fields)) :
    fieldAt (overlay base upper) name key
      = (fieldAt upper name key).or (fieldAt base name key) := by
  rw [fieldAt_overlay h]
  cases hover : fieldAt upper name key with
  | none => rfl
  | some v =>
    have hv : ∀ fields, v ≠ .table fields := fun fields e => hplain fields (by rw [hover, e])
    rw [Option.map_some, overlayValue_of_not_table hv]

/-- A field without repeated names covers one that is no table. -/
theorem fieldAt_overlay_of_distinct (h : HasSection upper name)
    (hdistinct : ∀ v, fieldAt upper name key = some v → v.Distinct)
    (hbase : ∀ fields, fieldAt base name key ≠ some (.table fields)) :
    fieldAt (overlay base upper) name key
      = (fieldAt upper name key).or (fieldAt base name key) := by
  rw [fieldAt_overlay h]
  cases hover : fieldAt upper name key with
  | none => rfl
  | some v =>
    have hv := overlayValue_none_of_distinct (hdistinct v hover)
    cases v with
    | table fields =>
      have hnothing : ((fieldAt base name key).map tableFields).getD [] = [] := by
        cases hb : fieldAt base name key with
        | none => rfl
        | some w =>
          cases w with
          | table inner => exact absurd hb (hbase inner)
          | _ => rfl
      rw [overlayValue_table, Option.map_none, Option.getD_none] at hv
      rw [Option.map_some, overlayValue_table, hnothing, hv]
    | _ => rw [Option.map_some, overlayValue_of_not_table (by rintro _ ⟨⟩)]

/-- No field gets lost. -/
theorem fieldAt_overlay_ne_none (h : HasSection upper name)
    (hfield : fieldAt upper name key ≠ none ∨ fieldAt base name key ≠ none) :
    fieldAt (overlay base upper) name key ≠ none := by
  rw [fieldAt_overlay h]
  cases hover : fieldAt upper name key with
  | none => simpa [hover] using hfield
  | some v => simp

end RuleCatalogue.Settings

/-! ## The algebra of overlays -/

namespace RuleCatalogue.Settings

open Value (Distinct)

variable {a b c base upper fields : Fields Value} {name : String} {path : List String}
variable {v w x : Value}

/-- A value that nothing lies inside is no table. -/
theorem ne_table_of_leaf (h : Toml.isCompound v = false) (fields : Fields Value) :
    v ≠ .table fields := by
  intro e
  rw [e] at h
  exact nomatch h

/-! ## One name of an overlay -/

/-- **An overlay at one name**: the upper value laid over the lower one, or the only one there
is. -/
def laid (lower upper : Option Value) : Option Value :=
  (upper.map (overlayValue lower)).or lower

@[simp] theorem laid_none (lower : Option Value) : laid lower none = lower :=
  rfl

@[simp] theorem laid_some (lower : Option Value) (v : Value) :
    laid lower (some v) = some (overlayValue lower v) :=
  rfl

theorem get?_overlay_eq_laid (nodup : upper.keys.Nodup) (name : String) :
    (overlay base upper).get? name = laid (base.get? name) (upper.get? name) :=
  get?_overlay nodup name

/-- **The names of an overlay**: those of the lower table, then those that are new.  So the settings
keep the order of the defaults. -/
theorem keys_overlay (nodup : upper.keys.Nodup) :
    (overlay base upper).keys = base.keys ++ upper.keys.filter (· ∉ base.keys) := by
  induction upper generalizing base with
  | nil => rw [overlay]; exact (List.append_nil _).symm
  | cons field rest ih =>
    obtain ⟨first, v⟩ := field
    obtain ⟨hfresh, hrest⟩ := List.nodup_cons.mp nodup
    have hkeys : Fields.keys ((first, v) :: rest) = first :: Fields.keys rest := rfl
    rw [overlay, ih hrest, hkeys]
    by_cases hmem : first ∈ base.keys
    · rw [Fields.keys_insert_of_mem hmem, List.filter_cons_of_neg (by simpa using hmem)]
    · have hfilter : (Fields.keys rest).filter (· ∉ base.keys ++ [first])
          = (Fields.keys rest).filter (· ∉ base.keys) := by
        refine List.filter_congr fun name hname => ?_
        have hne : name ≠ first := fun e => hfresh (e ▸ hname)
        simp [hne]
      rw [Fields.keys_insert_of_not_mem hmem, List.filter_cons_of_pos (by simpa using hmem),
        hfilter, List.append_assoc]
      rfl

/-! ## Paths -/

/-- The value at a path of names, through the tables inside a value. -/
def valueAt : List String → Value → Option Value
  | [], v => some v
  | name :: path, v => (Fields.get? name (tableFields v)).bind (valueAt path)

/-- The fields of the table at a path, and none where there is no table. -/
def fieldsAt (path : List String) (v : Value) : Fields Value :=
  ((valueAt path v).map tableFields).getD []

/-- **Tables at the same paths**: where both values hold something, both hold a table or neither
does. -/
def Concordant (v w : Value) : Prop :=
  ∀ path x y, valueAt path v = some x → valueAt path w = some y →
    ((∃ fields, x = .table fields) ↔ ∃ fields, y = .table fields)

/-- Two values that are no tables. -/
theorem concordant_of_not_table (hv : ∀ fields, v ≠ .table fields)
    (hw : ∀ fields, w ≠ .table fields) : Concordant v w := by
  intro path x y hx hy
  cases path with
  | nil =>
    cases hx
    cases hy
    exact ⟨fun ⟨fields, h⟩ => absurd h (hv fields), fun ⟨fields, h⟩ => absurd h (hw fields)⟩
  | cons name path =>
    obtain ⟨y, hy, -⟩ := Option.bind_eq_some_iff.mp hx
    cases v with
    | table fields => exact absurd rfl (hv fields)
    | _ => exact nomatch hy

/-- Two tables are concordant that are so at each name of both. -/
theorem concordant_table (ha : a.keys.Nodup) (hb : b.keys.Nodup)
    (all : ∀ field ∈ a, ∀ other ∈ b, field.1 = other.1 → Concordant field.2 other.2) :
    Concordant (.table a) (.table b) := by
  intro path x y hx hy
  cases path with
  | nil =>
    cases hx
    cases hy
    exact ⟨fun _ => ⟨b, rfl⟩, fun _ => ⟨a, rfl⟩⟩
  | cons name path =>
    obtain ⟨x', hx', hx⟩ := Option.bind_eq_some_iff.mp hx
    obtain ⟨y', hy', hy⟩ := Option.bind_eq_some_iff.mp hy
    have hinner := all (name, x') ((Fields.get?_eq_some_iff ha).mp hx') (name, y')
      ((Fields.get?_eq_some_iff hb).mp hy') rfl
    exact hinner path x y hx hy

/-- Two tables without tables inside. -/
theorem concordant_of_flat (ha : a.keys.Nodup) (hb : b.keys.Nodup)
    (flatA : ∀ field ∈ a, Toml.isCompound field.2 = false)
    (flatB : ∀ field ∈ b, Toml.isCompound field.2 = false) :
    Concordant (.table a) (.table b) :=
  concordant_table ha hb fun field hfield other hother _ =>
    concordant_of_not_table (ne_table_of_leaf (flatA field hfield))
      (ne_table_of_leaf (flatB other hother))

/-- Two values that are concordant are so at each name of theirs. -/
theorem Concordant.get? (h : Concordant v w) {x y : Value}
    (hx : Fields.get? name (tableFields v) = some x)
    (hy : Fields.get? name (tableFields w) = some y) : Concordant x y := by
  intro path x' y' hx' hy'
  refine h (name :: path) x' y' ?_ ?_
  · rw [valueAt, hx]
    exact hx'
  · rw [valueAt, hy]
    exact hy'

theorem Concordant.refl (v : Value) : Concordant v v := by
  intro path x y hx hy
  obtain rfl : x = y := Option.some.inj (hx.symm.trans hy)
  exact Iff.rfl

/-- A table keeps names apart that does so itself and whose values do. -/
theorem distinct_of_mem (nodup : fields.keys.Nodup) (all : ∀ field ∈ fields, Distinct field.2) :
    Distinct (.table fields) :=
  .table nodup fun name v hv => all (name, v) ((Fields.get?_eq_some_iff nodup).mp hv)

/-- The tables inside a value keep their names apart as well. -/
theorem distinct_valueAt (h : Distinct v) (hx : valueAt path v = some x) : Distinct x := by
  induction path generalizing v with
  | nil =>
    cases hx
    exact h
  | cons name path ih =>
    obtain ⟨y, hy, hx⟩ := Option.bind_eq_some_iff.mp hx
    refine ih ?_ hx
    cases v with
    | table fields => exact h.get? hy
    | _ => exact nomatch hy

/-- **The value of an overlay at a path** where the upper value has one: it lies over whatever the
lower one has there.  The induction is on the path. -/
theorem valueAt_overlayValue (h : Distinct w) (lower : Option Value)
    (hx : valueAt path w = some x) :
    valueAt path (overlayValue lower w) = some (overlayValue (lower.bind (valueAt path)) x) := by
  induction path generalizing w lower with
  | nil =>
    cases hx
    cases lower <;> rfl
  | cons name path ih =>
    obtain ⟨y, hy, hpath⟩ := Option.bind_eq_some_iff.mp hx
    cases w with
    | table fields =>
      have hlower : (((lower.map tableFields).getD []).get? name).bind (valueAt path)
          = lower.bind (valueAt (name :: path)) := by
        cases lower <;> rfl
      rw [overlayValue_table, valueAt, tableFields, get?_overlay_eq_laid h.nodup,
        show Fields.get? name fields = some y from hy, laid_some, Option.bind_some,
        ih (h.get? hy) _ hpath, hlower]
    | _ => cases hy

/-! ## The laws -/

/-- **A table laid over itself** is itself, fields in their places.  `Distinct` is needed at every
depth. -/
theorem overlayValue_self (h : Distinct v) : overlayValue (some v) v = v := by
  induction h with
  | leaf h => exact overlayValue_of_not_table (ne_table_of_leaf h) _
  | list all => exact overlayValue_of_not_table (by rintro _ ⟨⟩) _
  | @table fields nodup all ih =>
    have hnone : fields.keys.filter (· ∉ fields.keys) = [] :=
      List.filter_eq_nil_iff.mpr fun name hname => by simpa using hname
    have hkeys : (overlay fields fields).keys = fields.keys := by
      rw [keys_overlay nodup, hnone, List.append_nil]
    rw [overlayValue_table, Option.map_some, Option.getD_some, tableFields]
    refine congrArg Value.table (Fields.ext_get? (nodup_keys_overlay nodup _) hkeys fun name => ?_)
    rw [get?_overlay_eq_laid nodup]
    cases hv : fields.get? name with
    | none => rfl
    | some v => rw [laid_some, ih name v hv]

theorem overlay_self (h : Distinct (.table fields)) : overlay fields fields = fields := by
  have hself := overlayValue_self h
  rw [overlayValue_table] at hself
  exact Value.table.inj hself

/-- The names of three layers come in one order, however the layers are grouped. -/
theorem keys_overlay_assoc (hb : b.keys.Nodup) (hc : c.keys.Nodup) :
    (overlay (overlay a b) c).keys = (overlay a (overlay b c)).keys := by
  have hnew : c.keys.filter (· ∉ a.keys ++ b.keys.filter (· ∉ a.keys))
      = (c.keys.filter (· ∉ b.keys)).filter (· ∉ a.keys) := by
    rw [List.filter_filter]
    refine List.filter_congr fun name _ => ?_
    by_cases ha : name ∈ a.keys <;> simp [ha]
  rw [keys_overlay hc, keys_overlay hb, keys_overlay (nodup_keys_overlay hb c), keys_overlay hc,
    hnew, List.append_assoc, List.filter_append]

/-- **Three values at one name** may be grouped in any way, where the upper two are concordant.  A
table on top of something else is what `concordant` excludes: that would hide the lowest value only
in one of the groupings. -/
theorem laid_assoc {lower middle : Option Value} (hlower : ∀ u, lower = some u → Distinct u)
    (hmiddle : ∀ u, middle = some u → Distinct u) (hw : Distinct w)
    (concordant : ∀ u, middle = some u → Concordant u w) :
    laid (laid lower middle) (some w) = laid lower (laid middle (some w)) := by
  induction hw generalizing lower middle with
  | leaf h => simp only [laid_some, overlayValue_of_not_table (ne_table_of_leaf h)]
  | @list items all =>
    have hitems : ∀ fields, Value.list items ≠ .table fields := by
      rintro fields ⟨⟩
    simp only [laid_some, overlayValue_of_not_table hitems]
  | @table upper nodup all ih =>
    cases hm : middle with
    | none =>
      have hupper := overlayValue_none_of_distinct (.table nodup all)
      rw [laid_none, laid_some, laid_some, hupper, laid_some]
    | some u =>
      have hu := concordant u hm
      obtain ⟨between, rfl⟩ := (hu [] u _ rfl rfl).mpr ⟨upper, rfl⟩
      have hbetween := hmiddle _ hm
      simp only [laid_some, overlayValue_table, Option.map_some, Option.getD_some, tableFields]
      refine congrArg (some ∘ Value.table) (Fields.ext_get? ?_ ?_ fun name => ?_)
      · -- The fields of the lowest value have names of their own.
        refine nodup_keys_overlay (nodup_keys_overlay ?_ _) _
        cases lower with
        | none => exact List.nodup_nil
        | some l =>
          cases l with
          | table fields => exact (hlower _ rfl).nodup
          | _ => exact List.nodup_nil
      · exact keys_overlay_assoc hbetween.nodup nodup
      · rw [get?_overlay_eq_laid nodup, get?_overlay_eq_laid hbetween.nodup,
          get?_overlay_eq_laid (nodup_keys_overlay hbetween.nodup _), get?_overlay_eq_laid nodup]
        cases htop : upper.get? name with
        | none => rfl
        | some top =>
          have hdistinct (m : Value) (hmid : Fields.get? name between = some m) :
              Distinct m :=
            hbetween.get? hmid
          refine ih name top htop (fun l hl => ?_) hdistinct fun m hmid => ?_
          · cases lower with
            | none => cases hl
            | some found =>
              cases found with
              | table fields => exact (hlower _ rfl).get? hl
              | _ => cases hl
          · exact hu.get? hmid htop

/-- **Layers may be grouped in any way**, where the upper two are concordant; of the lowest one
nothing but `Distinct` is asked. -/
theorem overlay_assoc (ha : Distinct (.table a)) (hb : Distinct (.table b))
    (hc : Distinct (.table c)) (concordant : Concordant (.table b) (.table c)) :
    overlay (overlay a b) c = overlay a (overlay b c) := by
  have hassoc : laid (laid (some (.table a)) (some (.table b))) (some (.table c))
      = laid (some (.table a)) (laid (some (.table b)) (some (.table c))) := by
    refine laid_assoc ?_ ?_ hc ?_
    · rintro _ ⟨⟩
      exact ha
    · rintro _ ⟨⟩
      exact hb
    · rintro _ ⟨⟩
      exact concordant
  simp only [laid_some, overlayValue_table] at hassoc
  exact Value.table.inj (Option.some.inj hassoc)

/-- **Laying a layer over a second time** changes nothing, from `overlay_assoc` and
`overlayValue_self`. -/
theorem overlay_overlay_self (ha : Distinct (.table a)) (hb : Distinct (.table b)) :
    overlay (overlay a b) b = overlay a b := by
  rw [overlay_assoc ha hb hb (Concordant.refl _), overlay_self hb]

/-- **The table of an overlay at a path** where the upper table has one, given by the tables of both
at this path: `fieldsAt` is empty where the lower one has none. -/
theorem valueAt_overlay (hupper : Distinct (.table upper))
    (h : valueAt path (.table upper) = some (.table fields)) :
    valueAt path (.table (overlay base upper))
      = some (.table (overlay (fieldsAt path (.table base)) fields)) := by
  have hat := valueAt_overlayValue hupper (some (.table base)) h
  rw [overlayValue_table, overlayValue_table] at hat
  exact hat

/-- **Overlays are well behaved.**  The empty table is neutral on both sides, and a layer may be
laid over twice.  Layers of which no path holds a table in one and something else in another may be
grouped in any way.  Wherever the upper layer has a table, the overlay has one with the names that
the lower layer has there, in their places, and then those that are new; names that the upper table
does not have keep the values of the lower one. -/
theorem overlay_laws (ha : Distinct (.table a)) (hb : Distinct (.table b))
    (hc : Distinct (.table c)) :
    overlay [] a = a
      ∧ overlay a [] = a
      ∧ overlay (overlay a b) b = overlay a b
      ∧ ((∀ v ∈ [a, b, c], ∀ w ∈ [a, b, c], Concordant (.table v) (.table w)) →
          overlay (overlay a b) c = overlay a (overlay b c))
      ∧ ∀ path fields, valueAt path (.table b) = some (.table fields) →
          ∃ made, valueAt path (.table (overlay a b)) = some (.table made)
            ∧ Fields.keys made = Fields.keys (fieldsAt path (.table a))
                ++ (Fields.keys fields).filter (· ∉ Fields.keys (fieldsAt path (.table a)))
            ∧ ∀ name, name ∉ Fields.keys fields →
                Fields.get? name made = Fields.get? name (fieldsAt path (.table a)) := by
  have hnothing : overlay [] a = a := by
    have hnone := overlayValue_none_of_distinct ha
    rw [overlayValue_table] at hnone
    exact Value.table.inj hnone
  refine ⟨hnothing, by rw [overlay], overlay_overlay_self ha hb, fun concordant => ?_,
    fun path fields hfields => ?_⟩
  · exact overlay_assoc ha hb hc (concordant b (by simp) c (by simp))
  · have hnodup : (Fields.keys fields).Nodup := (distinct_valueAt hb hfields).nodup
    refine ⟨_, valueAt_overlay hb hfields, keys_overlay hnodup, fun name hname => ?_⟩
    rw [get?_overlay_eq_laid hnodup, Fields.get?_eq_none_iff.mpr hname, laid_none]

/-- A section of which each of three layers has a part, under a name of the lowest one. -/
theorem overlay_laws_section :
    let low : Fields Value := [("sources", .table [("recursive", .bool true)])]
    let middle : Fields Value :=
      [("output", .null), ("sources", .table [("glob", .text "*"), ("recursive", .bool false)])]
    let high : Fields Value := [("sources", .table [("encoding", .text "utf-8")])]
    Distinct (.table low) ∧ Distinct (.table middle) ∧ Distinct (.table high)
      ∧ overlay (overlay low middle) high = overlay low (overlay middle high)
      ∧ overlay (overlay low middle) high
          = [("sources", .table
                [("recursive", .bool false), ("glob", .text "*"), ("encoding", .text "utf-8")]),
              ("output", .null)] := by
  intro low middle high
  have hlow : Distinct (.table low) :=
    distinct_of_mem (by decide) (List.forall_mem_singleton.mpr
      (distinct_of_mem (by decide) (List.forall_mem_singleton.mpr (.leaf rfl))))
  have hmiddle : Distinct (.table middle) := by
    refine distinct_of_mem (by decide) (List.forall_mem_cons.mpr ⟨.leaf rfl, ?_⟩)
    refine List.forall_mem_singleton.mpr (distinct_of_mem (by decide) ?_)
    exact List.forall_mem_cons.mpr ⟨.leaf rfl, List.forall_mem_singleton.mpr (.leaf rfl)⟩
  have hhigh : Distinct (.table high) :=
    distinct_of_mem (by decide) (List.forall_mem_singleton.mpr
      (distinct_of_mem (by decide) (List.forall_mem_singleton.mpr (.leaf rfl))))
  have hconcordant : ∀ v ∈ [low, middle, high], ∀ w ∈ [low, middle, high],
      Concordant (.table v) (.table w) := by
    intro v hv w hw
    simp only [List.mem_cons, List.not_mem_nil, or_false] at hv hw
    rcases hv with rfl | rfl | rfl <;> rcases hw with rfl | rfl | rfl <;>
      refine concordant_table (by decide) (by decide) ?_ <;>
      simp [low, middle, high, Concordant.refl]
    -- What is left are pairs of different sections.
    all_goals refine concordant_of_flat ?_ ?_ ?_ ?_ <;> simp [Fields.keys, Toml.isCompound]
  obtain ⟨-, -, -, hassoc, -⟩ := overlay_laws hlow hmiddle hhigh
  refine ⟨hlow, hmiddle, hhigh, hassoc hconcordant, ?_⟩
  simp [low, middle, high, overlay, overlayValue, Fields.insert, Fields.get?, tableFields]

end RuleCatalogue.Settings
