import RuleCatalogue.Proofs.Json.OneLine
import RuleCatalogue.Proofs.Log

/-!
# The line of a record

A record becomes one line of JSON that says what the record says.  Its fields come from three
sources: what the record knows itself, the fields that are bound when it is made, and its further
fields.  The bound fields stand over the record's own; of the further fields three stand over both,
and the others apart under one name, where they take nothing from the rest.

There is one exception.  An integer of more than `maxIntegerDigits` digits has no text, so a
record with such an integer among its further fields has no line (`Record.line_eq_error_iff`), and
where it should be written only the loss of a record is told (`Record.no_line_of_oversized_extra`).

## Main definitions

* `Record.Regular` says which names and values the fields of a record have.
* `Record.ToldBy` says when a table tells a record, and `Record.told` is the table of its line.

## Main statements

* `Record.get?_lineFields`: what stands at each name.
* `Record.line_faithful`: which records have a line; it is one line, and what is read of it tells
  the record.

## Design notes

Whether a table tells a record is said by what it answers at each name, so it does not depend on the
order in which fields are put over each other.  The limit on digits is the same for writing and for
reading, so a line that is written is always read back.
-/

namespace RuleCatalogue

/-- A value that holds no others and is no floating-point number. -/
def Value.isSimple : Value → Bool
  | .null => true
  | .bool _ => true
  | .int _ => true
  | .text _ => true
  | _ => false

theorem Value.withSortedNames_of_isSimple {v : Value} (h : v.isSimple) : v.withSortedNames = v := by
  cases v with
  | list items => cases h
  | table fields => cases h
  | _ => rfl

theorem Json.Plain.isWritable {v : Value} (h : Json.Plain v) : v.isWritable := by
  induction h with
  | null => rfl
  | text s => rfl
  | bool b => rfl
  | int n short => exact decide_eq_true short
  | list items _ ih => exact Value.isWritable_list_iff.mpr ih
  | table fields _ _ ih => exact Value.isWritable_table_iff.mpr ih

theorem Json.plain_of_isSimple {v : Value} (h : v.isSimple)
    (hshort : ∀ n, v = .int n → Decimal.Short n) : Json.Plain v := by
  cases v with
  | null => exact .null
  | bool b => exact .bool b
  | int n => exact .int n (hshort n rfl)
  | text s => exact .text s
  | _ => cases h

namespace Record

/-- The names at the top of a line that are the record's own. -/
def reservedNames : List String :=
  ["timestamp", "level", "logger", "message", "fields"]

/-- **A regular record**: each name of its fields stands once, no bound field has a name that is
reserved, and its further fields are all shown and hold texts, integers, truth values or nothing. -/
structure Regular (record : Record) : Prop where
  nodup_bound : record.correlation.keys.Nodup
  free : ∀ name ∈ record.correlation.keys, name ∉ reservedNames
  nodup_extras : record.extras.keys.Nodup
  shown : ∀ name ∈ record.extras.keys, isHidden name = false
  simple : ∀ field ∈ record.extras, field.2.isSimple

/-- **A table tells a record.** -/
structure ToldBy (record : Record) (runId timestamp : String) (line : Fields Value) : Prop where
  nodup : line.keys.Nodup
  /-- No names stand at the top but these. -/
  names : ∀ name ∈ line.keys,
    name ∈ reservedNames ∨ name ∈ promotedNames ∨ name ∈ record.correlation.keys
  timestamp : line.get? "timestamp" = some (.text timestamp)
  level : line.get? "level" = some (.text (Severity.name record.severity))
  logger : line.get? "logger" = some (.text record.logger)
  message : line.get? "message" = some (.text record.message)
  /-- The three names: a further field counts first, then a bound one, then the run itself. -/
  promoted : ∀ name ∈ promotedNames,
    line.get? name = (record.extras.get? name).or
      (((record.correlation.get? name).map .text).or
        (if name = "run_id" then some (.text runId) else none))
  /-- The other bound fields. -/
  bound : ∀ name ∉ promotedNames, ∀ s, record.correlation.get? name = some s →
    line.get? name = some (.text s)
  /-- The other further fields, each once. -/
  others : ∃ others : Fields Value, others.keys.Nodup
    ∧ (∀ name, others.get? name = if name ∈ promotedNames then none else record.extras.get? name)
    ∧ line.get? "fields" = if others.isEmpty then none else some (.table others)

variable {record : Record}

/-! ## The sources -/

/-- What a record knows itself. -/
def ownFields (record : Record) (runId timestamp : String) : Fields Value :=
  [("timestamp", .text timestamp), ("level", .text (Severity.name record.severity)),
    ("logger", .text record.logger), ("message", .text record.message), ("run_id", .text runId)]

/-- The fields that are bound, as values. -/
def boundFields (record : Record) : Fields Value :=
  record.correlation.map fun field => (field.1, .text field.2)

/-- The further fields that stand at the top. -/
def promotedFields (record : Record) : Fields Value :=
  record.extras.filter fun field => promotedNames.contains field.1

/-- The further fields that stand apart. -/
def otherFields (record : Record) : Fields Value :=
  record.extras.filter fun field => !promotedNames.contains field.1

/-- What stands at the top but for the further fields that stand apart. -/
def topFields (record : Record) (runId timestamp : String) : Fields Value :=
  ((record.ownFields runId timestamp).insertAll record.boundFields).insertAll record.promotedFields

theorem lineFields_eq (h : record.Regular) (runId timestamp : String) :
    record.lineFields runId timestamp =
      if record.otherFields.isEmpty then record.topFields runId timestamp
      else (record.topFields runId timestamp).insert "fields" (.table record.otherFields) := by
  have hshown : record.shownExtras = record.extras := by
    refine List.filter_eq_self.mpr fun field hfield => ?_
    simp [h.shown field.1 (List.mem_map_of_mem hfield)]
  have hbase : record.baseFields runId timestamp
      = (record.ownFields runId timestamp).insertAll record.boundFields := by
    rw [Fields.insertAll, boundFields, List.foldl_map]
    rfl
  unfold lineFields
  rw [hshown, hbase, List.partition_eq_filter_filter]
  rfl

theorem keys_ownFields (record : Record) (runId timestamp : String) :
    (record.ownFields runId timestamp).keys
      = ["timestamp", "level", "logger", "message", "run_id"] :=
  rfl

theorem nodup_keys_ownFields (record : Record) (runId timestamp : String) :
    (record.ownFields runId timestamp).keys.Nodup := by
  rw [keys_ownFields]
  decide

theorem nodup_keys_topFields (record : Record) (runId timestamp : String) :
    (record.topFields runId timestamp).keys.Nodup := by
  have hown := nodup_keys_ownFields record runId timestamp
  exact Fields.nodup_keys_insertAll (Fields.nodup_keys_insertAll hown _) _

theorem get?_otherFields (record : Record) (name : String) :
    record.otherFields.get? name
      = if name ∈ promotedNames then none else record.extras.get? name := by
  have hfilter := Fields.get?_filter (fun name => !promotedNames.contains name) name record.extras
  rw [otherFields, hfilter]
  by_cases hname : name ∈ promotedNames <;> simp [hname]

section Sources

variable (h : record.Regular) (runId timestamp name : String)
include h

theorem nodup_keys_boundFields : record.boundFields.keys.Nodup := by
  rw [boundFields, Fields.keys_mapValues fun _ s => Value.text s]
  exact h.nodup_bound

theorem nodup_keys_promotedFields : record.promotedFields.keys.Nodup :=
  Fields.nodup_keys_filter _ h.nodup_extras

theorem nodup_keys_otherFields : record.otherFields.keys.Nodup :=
  Fields.nodup_keys_filter _ h.nodup_extras

theorem nodup_keys_lineFields : (record.lineFields runId timestamp).keys.Nodup := by
  rw [lineFields_eq h]
  split
  · exact nodup_keys_topFields record runId timestamp
  · exact Fields.nodup_keys_insert (nodup_keys_topFields record runId timestamp)

/-- **What stands at the top**: a further field over a bound one, and that over the record's own.
Only the names of `promotedNames` get there from the further fields. -/
theorem get?_topFields :
    (record.topFields runId timestamp).get? name =
      (if name ∈ promotedNames then record.extras.get? name else none).or
        (((record.correlation.get? name).map .text).or
          ((record.ownFields runId timestamp).get? name)) := by
  have hpromoted := Fields.get?_filter (fun name => promotedNames.contains name) name record.extras
  have hbound := Fields.get?_mapValues (fun _ s => Value.text s) name record.correlation
  rw [topFields, Fields.get?_insertAll (nodup_keys_promotedFields h),
    Fields.get?_insertAll (nodup_keys_boundFields h), promotedFields, hpromoted, boundFields,
    hbound]
  simp only [List.contains_iff_mem]

/-- **What stands at each name** of a line: the further fields that are not promoted are below
`fields`, if there are any. -/
theorem get?_lineFields :
    (record.lineFields runId timestamp).get? name =
      if name = "fields" then
        if record.otherFields.isEmpty then none else some (.table record.otherFields)
      else (record.topFields runId timestamp).get? name := by
  rw [lineFields_eq h]
  by_cases hname : name = "fields"
  · subst hname
    rw [if_pos rfl]
    split
    · have hbound : record.correlation.get? "fields" = none :=
        Fields.get?_eq_none_iff.mpr fun hmem => h.free "fields" hmem (by decide)
      rw [get?_topFields h, hbound]
      rfl
    · rw [Fields.get?_insert, if_pos rfl]
  · rw [if_neg hname]
    split
    · rfl
    · rw [Fields.get?_insert, if_neg (Ne.symm hname)]

/-- A value at the top is that of a further field, or a text. -/
theorem get?_topFields_cases {v : Value}
    (hv : (record.topFields runId timestamp).get? name = some v) :
    record.extras.get? name = some v ∨ ∃ s, v = .text s := by
  rw [get?_topFields h, Option.or_eq_some_iff] at hv
  rcases hv with hextra | ⟨-, hv⟩
  · left
    split at hextra
    · exact hextra
    · cases hextra
  · right
    rcases Option.or_eq_some_iff.mp hv with hbound | ⟨-, hown⟩
    · obtain ⟨s, -, rfl⟩ := Option.map_eq_some_iff.mp hbound
      exact ⟨s, rfl⟩
    · have hall : ∀ field ∈ record.ownFields runId timestamp, ∃ s, field.2 = .text s := by
        simp [ownFields]
      have hmem := (Fields.get?_eq_some_iff (nodup_keys_ownFields record runId timestamp)).mp hown
      exact hall (name, v) hmem

theorem isSimple_of_get?_topFields {v : Value}
    (hv : (record.topFields runId timestamp).get? name = some v) : v.isSimple := by
  rcases get?_topFields_cases h runId timestamp name hv with hextra | ⟨s, rfl⟩
  · exact h.simple (name, v) ((Fields.get?_eq_some_iff h.nodup_extras).mp hextra)
  · rfl

end Sources

/-! ## The line -/

/-- The fields that stand apart, as the line has them. -/
def apartFields (record : Record) : Fields Value :=
  Value.sortNames record.otherFields

/-- **What is told of a record**: the fields of its line, with their names in order. -/
def told (record : Record) (runId timestamp : String) : Fields Value :=
  Value.sortNames (record.lineFields runId timestamp)

section Line

variable (h : record.Regular) (runId timestamp : String)
include h

theorem get?_apartFields (name : String) :
    record.apartFields.get? name
      = if name ∈ promotedNames then none else record.extras.get? name := by
  rw [apartFields, Value.get?_sortNames (nodup_keys_otherFields h), get?_otherFields]
  split
  · rfl
  · cases hextra : record.extras.get? name with
    | none => rfl
    | some v =>
      have hmem := (Fields.get?_eq_some_iff h.nodup_extras).mp hextra
      exact congrArg some (Value.withSortedNames_of_isSimple (h.simple (name, v) hmem))

/-- What stands at each name of what is told: sorting the names moves no value to another one. -/
theorem get?_told (name : String) :
    (record.told runId timestamp).get? name =
      if name = "fields" then
        if record.apartFields.isEmpty then none else some (.table record.apartFields)
      else (record.topFields runId timestamp).get? name := by
  have hempty : record.apartFields.isEmpty = record.otherFields.isEmpty := by
    rw [apartFields, Value.sortNames, (Fields.sorted_perm _).isEmpty_eq,
      sortNamesInFields_eq_map, List.isEmpty_map]
  rw [told, Value.get?_sortNames (nodup_keys_lineFields h runId timestamp),
    get?_lineFields h runId timestamp name, hempty]
  split
  · split
    · rfl
    · rw [Option.map_some, Value.withSortedNames_table]
      rfl
  · cases hv : (record.topFields runId timestamp).get? name with
    | none => rfl
    | some v =>
      have hsimple := isSimple_of_get?_topFields h runId timestamp name hv
      exact congrArg some (Value.withSortedNames_of_isSimple hsimple)

/-- At a reserved name stands what the record says itself. -/
theorem get?_told_reserved {name : String} (hreserved : name ∈ reservedNames)
    (hname : name ≠ "fields") :
    (record.told runId timestamp).get? name = (record.ownFields runId timestamp).get? name := by
  have hpromoted : name ∉ promotedNames := by
    have hall : ∀ name ∈ reservedNames, name ∉ promotedNames := by decide
    exact hall name hreserved
  have hbound : record.correlation.get? name = none :=
    Fields.get?_eq_none_iff.mpr fun hmem => h.free name hmem hreserved
  rw [get?_told h, if_neg hname, get?_topFields h, if_neg hpromoted, hbound]
  rfl

/-- **What is told tells the record**: `told` is the table of the line with its names sorted, and
sorting changes no answer. -/
theorem toldBy_told : record.ToldBy runId timestamp (record.told runId timestamp) where
  nodup := Value.nodup_keys_sortNames (nodup_keys_lineFields h runId timestamp)
  names name hname := by
    by_contra hnone
    simp only [not_or] at hnone
    obtain ⟨hreserved, hpromoted, hbound⟩ := hnone
    refine Fields.get?_eq_none_iff.mp ?_ hname
    have hfields : name ≠ "fields" := by
      rintro rfl
      exact hreserved (by decide)
    have hown : (record.ownFields runId timestamp).get? name = none := by
      refine Fields.get?_eq_none_iff.mpr fun hmem => ?_
      have hall : ∀ own ∈ ["timestamp", "level", "logger", "message", "run_id"],
          own ∈ reservedNames ∨ own ∈ promotedNames := by decide
      exact (hall name hmem).elim hreserved hpromoted
    rw [get?_told h, if_neg hfields, get?_topFields h, if_neg hpromoted,
      Fields.get?_eq_none_iff.mpr hbound, hown]
    rfl
  timestamp := get?_told_reserved h runId timestamp (by decide) (by decide)
  level := get?_told_reserved h runId timestamp (by decide) (by decide)
  logger := get?_told_reserved h runId timestamp (by decide) (by decide)
  message := get?_told_reserved h runId timestamp (by decide) (by decide)
  promoted name hname := by
    have hfields : name ≠ "fields" := by
      rintro rfl
      exact absurd hname (by decide)
    have hown : (record.ownFields runId timestamp).get? name
        = if name = "run_id" then some (.text runId) else none := by
      simp only [promotedNames, List.mem_cons, List.not_mem_nil, or_false] at hname
      rcases hname with rfl | rfl | rfl <;> rfl
    rw [get?_told h, if_neg hfields, get?_topFields h, if_pos hname, hown]
  bound name hname s hs := by
    have hfields : name ≠ "fields" := by
      rintro rfl
      exact h.free "fields" (Fields.mem_keys_of_get? hs) (by decide)
    rw [get?_told h, if_neg hfields, get?_topFields h, if_neg hname, hs]
    rfl
  others := by
    refine ⟨record.apartFields, ?_, get?_apartFields h, ?_⟩
    · exact Value.nodup_keys_sortNames (nodup_keys_otherFields h)
    · rw [get?_told h, if_pos rfl]

/-- JSON can say what is told, if its integers are not too long. -/
theorem plain_lineFields (hshort : ∀ name n, record.extras.get? name = some (.int n) →
    Decimal.Short n) : Json.Plain (.table (record.lineFields runId timestamp)) := by
  have hextra {name : String} {v : Value} (hv : record.extras.get? name = some v) :
      Json.Plain v := by
    have hmem := (Fields.get?_eq_some_iff h.nodup_extras).mp hv
    exact Json.plain_of_isSimple (h.simple (name, v) hmem) fun n hn => hshort name n (hn ▸ hv)
  have hothers : Json.Plain (.table record.otherFields) := by
    refine .table _ (nodup_keys_otherFields h) fun field hfield => ?_
    obtain ⟨hmem, -⟩ := List.mem_filter.mp hfield
    exact hextra ((Fields.get?_eq_some_iff h.nodup_extras).mpr hmem)
  have hnodup := nodup_keys_lineFields h runId timestamp
  refine .table _ hnodup fun field hfield => ?_
  have hget := (Fields.get?_eq_some_iff hnodup).mpr hfield
  rw [get?_lineFields h] at hget
  split at hget
  · split at hget
    · cases hget
    · rw [← Option.some.inj hget]
      exact hothers
  · rcases get?_topFields_cases h runId timestamp _ hget with hv | ⟨s, hs⟩
    · exact hextra hv
    · rw [hs]
      exact .text s

/-- A further field stands in the line, at the top or apart, so it must have a text of its own. -/
theorem short_of_isWritable
    (hwritable : (Value.table (record.lineFields runId timestamp)).isWritable) {name : String}
    {n : Int} (hextra : record.extras.get? name = some (.int n)) : Decimal.Short n := by
  have hall := Value.isWritable_table_iff.mp hwritable
  have hwritten {name : String} {v : Value}
      (hv : (record.lineFields runId timestamp).get? name = some v) : v.isWritable :=
    hall (name, v) ((Fields.get?_eq_some_iff (nodup_keys_lineFields h runId timestamp)).mp hv)
  suffices hint : (Value.int n).isWritable by
    rw [Value.isWritable] at hint
    exact of_decide_eq_true hint
  by_cases hpromoted : name ∈ promotedNames
  · have hfields : name ≠ "fields" := by
      rintro rfl
      exact absurd hpromoted (by decide)
    refine @hwritten name _ ?_
    rw [get?_lineFields h, if_neg hfields, get?_topFields h, if_pos hpromoted, hextra]
    rfl
  · have hother : record.otherFields.get? name = some (.int n) := by
      rw [get?_otherFields, if_neg hpromoted, hextra]
    have hmem := (Fields.get?_eq_some_iff (nodup_keys_otherFields h)).mp hother
    have hnonempty : record.otherFields.isEmpty = false :=
      List.isEmpty_eq_false_iff.mpr (List.ne_nil_of_mem hmem)
    have hapart : (Value.table record.otherFields).isWritable := by
      refine @hwritten "fields" _ ?_
      rw [get?_lineFields h, if_pos rfl, hnonempty]
      rfl
    exact Value.isWritable_table_iff.mp hapart _ hmem

/-- **Whether a record has a line** is decided by the integers among its further fields: its own
fields and the bound ones are texts. -/
theorem isWritable_lineFields_iff :
    (Value.table (record.lineFields runId timestamp)).isWritable
      ↔ ∀ name n, record.extras.get? name = some (.int n) → Decimal.Short n := by
  constructor
  · exact fun hwritable name n hextra => short_of_isWritable h runId timestamp hwritable hextra
  · exact fun hshort => (plain_lineFields h runId timestamp hshort).isWritable

/-- **A record without a line** has an integer of too many digits among its further fields.  This is
the converse of what `line_faithful` says of the records that have one. -/
theorem line_eq_error_iff {e : Decimal.OversizedInteger} :
    record.line runId timestamp = .error e
      ↔ ∃ name n, record.extras.get? name = some (.int n) ∧ ¬ Decimal.Short n := by
  have hexists : (∃ name n, record.extras.get? name = some (.int n) ∧ ¬ Decimal.Short n)
      ↔ ¬ (Value.table (record.lineFields runId timestamp)).isWritable := by
    rw [isWritable_lineFields_iff h]
    push Not
    rfl
  rw [hexists, line, Json.compact, Value.written]
  split
  · next hwritable => simp [hwritable]
  · next hwritable => simp [hwritable]

/-- The line is the text of what is told. -/
theorem line_eq_ok_iff {text : String} :
    record.line runId timestamp = .ok text
      ↔ (∀ name n, record.extras.get? name = some (.int n) → Decimal.Short n)
        ∧ text = String.ofList (Json.compactChars (.table (record.told runId timestamp))) := by
  rw [← isWritable_lineFields_iff h runId timestamp, line, Json.compact, Value.written,
    Json.compactText, Value.withSortedNames_table]
  split
  · next hwritable => simp [hwritable, told, eq_comm]
  · next hwritable => simp [hwritable]

end Line

/-- **A record becomes one faithful line, unless an integer among its further fields has too many
digits**, and then it has no line.  The line is without control characters, it is the JSON text of a
table that tells the record, and that table is read from it again. -/
theorem line_faithful (h : record.Regular) (runId timestamp : String) :
    ((∃ e, record.line runId timestamp = .error e)
        ↔ ∃ name n, record.extras.get? name = some (.int n) ∧ ¬ Decimal.Short n)
      ∧ ∀ text, record.line runId timestamp = .ok text →
        (∀ c ∈ text.toList, 0x20 ≤ c.toNat)
          ∧ ∃ told : Fields Value, record.ToldBy runId timestamp told
            ∧ text = String.ofList (Json.compactChars (.table told))
            ∧ Json.parse text = .ok (.table told) := by
  refine ⟨?_, fun text htext => ?_⟩
  · constructor
    · exact fun ⟨e, he⟩ => (line_eq_error_iff h runId timestamp).mp he
    · exact fun hlong => ⟨⟨⟩, (line_eq_error_iff h runId timestamp).mpr hlong⟩
  · obtain ⟨hshort, rfl⟩ := (line_eq_ok_iff h runId timestamp).mp htext
    have htold := Value.withSortedNames_table (record.lineFields runId timestamp)
    have hfree := Json.controlFree_compactText (.table (record.lineFields runId timestamp))
    have hparse := Json.parse_compactText (plain_lineFields h runId timestamp hshort)
    rw [Json.compactText, htold] at hfree hparse
    exact ⟨hfree, record.told runId timestamp, toldBy_told h runId timestamp, rfl, hparse⟩

/-- A record of two lines, with a bound field and a further one of the same name. -/
def layered : Record where
  severity := 20
  logger := "codenarc_converter"
  message := "one\ntwo"
  correlation := [("rule", "EmptyClass"), ("worker", "w1")]
  extras := [("worker", .int 7), ("source_file", .text "rules.apt"), ("done", .bool true)]

theorem line_faithful_layered :
    layered.Regular ∧ ∃ text, layered.line "r1" "12:00" = .ok text
      ∧ ∃ told : Fields Value, layered.ToldBy "r1" "12:00" told
        ∧ Json.parse text = .ok (.table told) ∧ told.get? "worker" = some (.text "w1") := by
  have hregular : layered.Regular := ⟨by decide, by decide, by decide, by decide, by decide⟩
  have hshort (name : String) (n : Int) (hn : layered.extras.get? name = some (.int n)) :
      Decimal.Short n := by
    have hmem := (Fields.get?_eq_some_iff hregular.nodup_extras).mp hn
    have hseven : name = "worker" ∧ n = 7 := by simpa [layered] using hmem
    rw [hseven.2]
    decide
  obtain ⟨hfails, hfaithful⟩ := line_faithful hregular "r1" "12:00"
  cases hline : layered.line "r1" "12:00" with
  | error e =>
    obtain ⟨name, n, hextra, hlong⟩ := hfails.mp ⟨e, hline⟩
    exact absurd (hshort name n hextra) hlong
  | ok text =>
    obtain ⟨-, told, htold, -, hread⟩ := hfaithful text hline
    exact ⟨hregular, text, rfl, told, htold, hread, htold.bound "worker" (by decide) "w1" rfl⟩

/-- A record with an integer of one digit more than can be written. -/
def oversized : Record where
  severity := 20
  logger := "codenarc_converter"
  message := "counted"
  correlation := []
  extras := [("n", .int (10 ^ maxIntegerDigits))]

/-- The log that takes it, in a file of the working directory. -/
def openLog : LogFile where
  runId := "r1"
  logger := "codenarc_converter"
  path := ⟨.here, ["converter.jsonl"]⟩
  toConsole := false
  isOpen := true

/-- **An integer of 4301 digits costs the record its line**: the files stay as they are, and all
that is told is that a record was lost. -/
theorem no_line_of_oversized_extra :
    oversized.Regular ∧ oversized.line "r1" "12:00" = .error ⟨⟩
      ∧ ((Logbook.write openLog oversized : StateM Machine Unit).run {}).2.tree = ⟨[]⟩
      ∧ ((Logbook.write openLog oversized : StateM Machine Unit).run {}).2.printedErrors
          = "--- Logging error ---\n" := by
  have hregular : oversized.Regular := by
    refine ⟨by decide, by decide, by decide, by decide, fun field hfield => ?_⟩
    rw [List.mem_singleton.mp hfield]
    rfl
  have hline (timestamp : String) : oversized.line "r1" timestamp = .error ⟨⟩ := by
    refine (line_eq_error_iff hregular "r1" timestamp).mpr ⟨"n", _, rfl, ?_⟩
    exact Decimal.not_short_ten_pow le_rfl
  have hwrite := @Logbook.run_write_of_error openLog oversized {} ⟨⟩ (hline "")
  rw [hwrite]
  exact ⟨hregular, hline "12:00", rfl, rfl⟩

end Record

end RuleCatalogue
