import Mathlib.Data.List.Induction
import RuleCatalogue.Merge
import RuleCatalogue.Proofs.Catalogue
import RuleCatalogue.Proofs.Table
import RuleCatalogue.Proofs.Text.Substring
import RuleCatalogue.Session

/-!
# What one line does

A line reaches the entry of the open rule in two ways only: it adds text to the description, and it
adds a parameter.  Neither depends on what the entry holds, so a line does the same to an entry that
was resumed as to a new one; `OpenRule.consume_mapEntry` says this once for every kind of line.
What a line leaves alone (`OpenRule.name_consume`) follows from it.

Sessions are driven here by `Session.feed`, the reading without the list of titles, and
`Session.titles` is that list.

## Main definitions

* `RuleEntry.Additive` holds of a change of entries that adding text and parameters does not notice.
* `OpenRule.mapEntry` makes such a change in the open rule, and `OpenRule.withNewEntry` puts an
  empty entry into it.

## Main results

* `OpenRule.consume_mapEntry`: a line does to every entry the same.
* `OpenRule.consume_eq_followedBy`: what a line adds is what it makes of a new entry.
* `Session.feed_induction`: what one line keeps, all lines keep.
-/

namespace RuleCatalogue

/-! ## Entries that go on where another stopped -/

namespace RuleEntry

/-- **An entry that resumes `earlier`** and adds what `later` holds: the descriptions follow one
another and the parameters are united. -/
def followedBy (earlier later : RuleEntry) : RuleEntry :=
  { earlier with
    parameters := earlier.parameters.union later.parameters
    rawDescription := earlier.rawDescription ++ later.rawDescription }

/-- The name is that of the entry in front. -/
@[simp] theorem name_followedBy (earlier later : RuleEntry) :
    (earlier.followedBy later).name = earlier.name := rfl

/-- An entry that knows nothing adds nothing. -/
@[simp] theorem followedBy_new (earlier : RuleEntry) (name : String) :
    earlier.followedBy { name } = earlier := by
  simp [followedBy]

/-- An entry that knows nothing but its name becomes the one behind it. -/
theorem new_followedBy (later : RuleEntry) : followedBy { name := later.name } later = later := by
  simp [followedBy]

/-- **A change of entries that reading does not notice**: it may be made before or after text or a
parameter is added. -/
structure Additive (f : RuleEntry → RuleEntry) : Prop where
  append : ∀ e text, f (e.append text) = (f e).append text
  addParameter : ∀ e p, f (e.addParameter p) = (f e).addParameter p

/-- What an entry is told behind another one is what the other one would have been told: this lets a
rule be read without the entry that it resumes. -/
theorem additive_followedBy (earlier : RuleEntry) : Additive earlier.followedBy where
  append e text := by
    simp [followedBy, append, String.append_assoc]
  addParameter e p := by
    refine RuleEntry.ext (by simp) (ParameterSet.ext_mem fun q => ?_) (by simp [followedBy])
    simp only [followedBy, mem_addParameter, ParameterSet.mem_union]
    tauto

end RuleEntry

/-! ## One line inside a rule -/

namespace OpenRule

/-- The rule with another entry. -/
def mapEntry (f : RuleEntry → RuleEntry) (rule : OpenRule) : OpenRule :=
  { rule with entry := f rule.entry }

/-- The entry of a rule is changed. -/
@[simp] theorem entry_mapEntry (f : RuleEntry → RuleEntry) (rule : OpenRule) :
    (rule.mapEntry f).entry = f rule.entry := rfl

/-- The mode of a rule does not depend on its entry. -/
@[simp] theorem mode_mapEntry (f : RuleEntry → RuleEntry) (rule : OpenRule) :
    (rule.mapEntry f).mode = rule.mode := rfl

section Additive

variable {f : RuleEntry → RuleEntry} (hf : RuleEntry.Additive f) (rule : OpenRule)

include hf

/-- Text is appended behind what the entry holds already. -/
theorem append_mapEntry (text : String) :
    (rule.mapEntry f).append text = (rule.append text).mapEntry f := by
  simp [mapEntry, append, hf.append]

/-- Whether a paragraph is open is known from the mode. -/
theorem closeParagraph_mapEntry :
    (rule.mapEntry f).closeParagraph = rule.closeParagraph.mapEntry f := by
  obtain ⟨entry, mode, interrupted⟩ := rule
  cases mode with
  | description isOpen => cases isOpen <;> simp [mapEntry, closeParagraph, append, hf.append]
  | code => rfl
  | table columns pending => rfl

/-- The parameter that is being read is kept in the mode until it is added. -/
theorem flushParameter_mapEntry :
    (rule.mapEntry f).flushParameter = rule.flushParameter.mapEntry f := by
  obtain ⟨entry, mode, interrupted⟩ := rule
  cases mode with
  | description isOpen => rfl
  | code => rfl
  | table columns pending => simp [mapEntry, flushParameter, hf.addParameter]

/-- Closing a rule adds what the mode holds back. -/
theorem close_mapEntry : (rule.mapEntry f).close = f rule.close := by
  simp only [close, closeParagraph_mapEntry hf, flushParameter_mapEntry hf, entry_mapEntry]

/-- A block of code begins behind a paragraph that is closed. -/
theorem beginCode_mapEntry : (rule.mapEntry f).beginCode = rule.beginCode.mapEntry f := by
  simp only [beginCode, closeParagraph_mapEntry hf, flushParameter_mapEntry hf, append_mapEntry hf]
  rfl

/-- A table begins with the columns of its ruler, whatever the entry. -/
theorem beginTable_mapEntry (ruler : List Char) :
    (rule.mapEntry f).beginTable ruler = (rule.beginTable ruler).mapEntry f := by
  unfold beginTable
  split
  · rw [closeParagraph_mapEntry hf]
    rfl
  · rfl

/-- A line of prose is converted by itself. -/
theorem addProse_mapEntry (paragraphOpen : Bool) (line : List Char) :
    (rule.mapEntry f).addProse paragraphOpen line
      = (rule.addProse paragraphOpen line).mapEntry f := by
  unfold addProse
  split
  · exact closeParagraph_mapEntry hf rule
  · simp only [append_mapEntry hf]
    rfl

omit hf in
/-- A row is cut by the columns of the mode. -/
theorem addRow_mapEntry (columns : Columns) (pending : Parameter) (row : List Char) :
    (rule.mapEntry f).addRow columns pending row
      = (rule.addRow columns pending row).mapEntry f := by
  unfold addRow
  split <;> rfl

/-- **A line does to every entry the same**, when `f` is additive: the mode decides what is added,
and never looks at the entry. -/
theorem consume_mapEntry (full line : List Char) :
    (rule.mapEntry f).consume full line = (rule.consume full line).mapEntry f := by
  unfold consume
  rw [mode_mapEntry]
  split
  · split
    · rw [append_mapEntry hf]
      rfl
    · exact append_mapEntry hf rule _
  · split
    · exact beginCode_mapEntry hf rule
    · split
      · exact addProse_mapEntry hf rule _ line
      · split
        · exact beginTable_mapEntry hf rule line
        · rfl
  · split
    · exact beginCode_mapEntry hf rule
    · split
      · exact addRow_mapEntry rule _ _ line
      · split
        · exact flushParameter_mapEntry hf rule
        · rw [flushParameter_mapEntry hf]
          rfl

end Additive

/-- The rule as it would be, had its entry been new. -/
def withNewEntry (rule : OpenRule) : OpenRule :=
  { rule with entry := { name := rule.entry.name } }

/-- A rule is a rule with a new entry, and its entry in front of that. -/
theorem mapEntry_withNewEntry (rule : OpenRule) :
    rule.withNewEntry.mapEntry rule.entry.followedBy = rule := by
  simp [mapEntry, withNewEntry]

/-- **A line only adds to the entry**: what it adds is what it makes of a new one.  Theorems about
one rule may therefore begin with `withNewEntry`. -/
theorem consume_eq_followedBy (rule : OpenRule) (full line : List Char) :
    rule.consume full line
      = (rule.withNewEntry.consume full line).mapEntry rule.entry.followedBy := by
  rw [← consume_mapEntry (RuleEntry.additive_followedBy rule.entry), mapEntry_withNewEntry]

/-- Closing a rule is closing it with a new entry, behind the entry that it had. -/
theorem close_eq_followedBy (rule : OpenRule) :
    rule.close = rule.entry.followedBy rule.withNewEntry.close := by
  rw [← close_mapEntry (RuleEntry.additive_followedBy rule.entry), mapEntry_withNewEntry]

/-- No line changes the name of the rule that it belongs to. -/
@[simp] theorem name_consume (rule : OpenRule) (full line : List Char) :
    (rule.consume full line).entry.name = rule.entry.name := by
  rw [consume_eq_followedBy]
  rfl

/-- Closing changes no name. -/
@[simp] theorem name_close (rule : OpenRule) : rule.close.name = rule.entry.name := by
  rw [close_eq_followedBy]
  rfl

/-- The rule after some lines of its own. -/
def feed (rule : OpenRule) (lines : List (List Char)) : OpenRule :=
  lines.foldl (fun rule full => rule.consume full (Text.trim full)) rule

/-- Lines in two parts are read one part after the other. -/
theorem feed_append (rule : OpenRule) (first second : List (List Char)) :
    rule.feed (first ++ second) = (rule.feed first).feed second :=
  List.foldl_append

/-- The first line is read first, trimmed for all tests but one. -/
theorem feed_cons (rule : OpenRule) (full : List Char) (lines : List (List Char)) :
    rule.feed (full :: lines) = (rule.consume full (Text.trim full)).feed lines := rfl

/-- No lines change the name of the rule that they belong to. -/
theorem name_feed (rule : OpenRule) (lines : List (List Char)) :
    (rule.feed lines).entry.name = rule.entry.name := by
  induction lines generalizing rule with
  | nil => rfl
  | cons full rest ih => rw [feed_cons, ih, name_consume]

end OpenRule

/-! ## One line of a session -/

namespace Session

/-- A line ends the open rule if it begins like a title and is no item of a list. -/
theorem endsRule_iff {full line : List Char} :
    endsRule full line ↔ Line.titleStart <+: full ∧ ¬ Line.listItemStart <+: line := by
  rw [endsRule, Bool.and_eq_true, Bool.not_eq_true', List.isPrefixOf_iff_prefix,
    ← Bool.not_eq_true, List.isPrefixOf_iff_prefix]

/-- A line that ends a rule still begins like a title when it is trimmed, unless only the star is
left. -/
theorem trim_of_endsRule {full : List Char} (h : endsRule full (Text.trim full)) :
    Text.trim full = ['*'] ∨ Line.titleStart <+: Text.trim full := by
  -- Only the end of such a line is trimmed, and its star is never blank.
  obtain ⟨rest, rfl⟩ := (endsRule_iff.mp h).1
  have hstart : Text.trimStart (Line.titleStart ++ rest) = Line.titleStart ++ rest := rfl
  have hne : Text.trim (Line.titleStart ++ rest) ≠ [] := by
    intro hnil
    have hstar : Text.isBlank '*' := Text.trim_eq_nil_iff.mp hnil '*' List.mem_cons_self
    exact absurd hstar (by decide)
  obtain ⟨after, hafter⟩ :=
    Text.dropEndWhile_prefix Text.isBlank (Text.trimStart (Line.titleStart ++ rest))
  rw [← Text.trimEnd, ← Text.trim, hstart] at hafter
  cases htrim : Text.trim (Line.titleStart ++ rest) with
  | nil => exact absurd htrim hne
  | cons c more =>
    rw [htrim] at hafter
    cases more with
    | nil => exact Or.inl (by rw [(List.cons.inj hafter).1])
    | cons d more =>
      obtain ⟨rfl, htail⟩ := List.cons.inj hafter
      obtain ⟨rfl, -⟩ := List.cons.inj htail
      exact Or.inr ⟨more, rfl⟩

/-- The name of the rule that a line opens outside a rule, if it opens one. -/
def titleName? (line : List Char) : Option String :=
  if Line.titleStart.isPrefixOf line then (Line.ruleName? line).map String.ofList else none

/-- A title opens a rule and is told. -/
theorem seekTitle_of_title {line : List Char} {name : String} (h : titleName? line = some name)
    (session : Session) :
    session.seekTitle line = ((session.openRule name).1, some (session.openRule name).2) := by
  unfold titleName? at h
  split at h
  · next hstart =>
    obtain ⟨characters, hname, rfl⟩ := Option.map_eq_some_iff.mp h
    simp [seekTitle, hstart, hname]
  · simp at h

/-- Any other line outside of rules leaves no trace. -/
theorem seekTitle_of_noTitle {line : List Char} (h : titleName? line = none) (session : Session) :
    session.seekTitle line = (session, none) := by
  unfold titleName? at h
  split at h
  · next hstart =>
    have hname : Line.ruleName? line = none := Option.map_eq_none_iff.mp h
    simp [seekTitle, hstart, hname]
  · next hstart => simp [seekTitle, hstart]

/-- A title opens the entry filed under its name, or a new one. -/
theorem openRule_fst (session : Session) (name : String) :
    (session.openRule name).1
      = { session with current := some { entry := session.finished.entryOrNew name } } := by
  unfold openRule Catalogue.entryOrNew
  split
  · next entry hfiled => simp [hfiled]
  · next hfiled => simp [hfiled]

/-- The session after some lines, each without its line end. -/
def feed (session : Session) (lines : List (List Char)) : Session :=
  lines.foldl (fun session full => (session.consume full).1) session

/-- No lines change nothing. -/
@[simp] theorem feed_nil (session : Session) : session.feed [] = session := rfl

/-- The first line is read first; what it tells is collected elsewhere. -/
@[simp] theorem feed_cons (session : Session) (full : List Char) (lines : List (List Char)) :
    session.feed (full :: lines) = (session.consume full).1.feed lines := rfl

/-- Lines in two parts are read one part after the other. -/
theorem feed_append (session : Session) (first second : List (List Char)) :
    session.feed (first ++ second) = (session.feed first).feed second :=
  List.foldl_append

/-- What holds at the beginning and is kept by every line holds after all lines. -/
theorem feed_induction {P : Session → Prop} {session : Session} (begins : P session)
    (step : ∀ s full, P s → P (s.consume full).1) (lines : List (List Char)) :
    P (session.feed lines) := by
  induction lines generalizing session with
  | nil => exact begins
  | cons full rest ih => exact ih (step session full begins)

/-- The titles accepted on the way. -/
def titles (session : Session) : List (List Char) → List Title
  | [] => []
  | full :: rest => (session.consume full).2.toList ++ (session.consume full).1.titles rest

/-- The titles of lines in two parts: those of the second part are told by the session that the
first part leaves. -/
theorem titles_append (session : Session) (first second : List (List Char)) :
    session.titles (first ++ second)
      = session.titles first ++ (session.feed first).titles second := by
  induction first generalizing session with
  | nil => rfl
  | cons full rest ih =>
    rw [List.cons_append, titles, ih, titles, feed_cons, List.append_assoc]

/-- Lines are read from the front, so the last one is read by the session that the others leave. -/
theorem consumeAll_snoc (session : Session) (lines : List String) (line : String) :
    session.consumeAll (lines ++ [line])
      = (((session.consumeAll lines).1.consume (dropLineEnd line)).1,
          (session.consumeAll lines).2
            ++ ((session.consumeAll lines).1.consume (dropLineEnd line)).2.toList) := by
  rw [consumeAll, List.foldl_append]
  rfl

/-- Reading all lines is two things side by side: the session that they leave and the titles that
they tell. -/
theorem consumeAll_eq (session : Session) (lines : List String) :
    session.consumeAll lines
      = (session.feed (lines.map dropLineEnd), session.titles (lines.map dropLineEnd)) := by
  induction lines using List.reverseRecOn with
  | nil => rfl
  | append_singleton lines line ih =>
    rw [consumeAll_snoc, ih, List.map_append, feed_append, titles_append]
    simp [titles]

/-- The rule that is open at the end is closed. -/
theorem readLines_eq (lines : List String) :
    readLines lines
      = ((start.feed (lines.map dropLineEnd)).finish.finished,
          start.titles (lines.map dropLineEnd)) := by
  rw [readLines, consumeAll_eq]

/-- The catalogue of a file does not depend on what is told. -/
theorem ofLines_eq (lines : List String) :
    Catalogue.ofLines lines = (start.feed (lines.map dropLineEnd)).finish.finished := by
  rw [Catalogue.ofLines, readLines_eq]

/-- At the end no rule is open. -/
@[simp] theorem current_finish (session : Session) : session.finish.current = none := by
  unfold finish
  split
  · assumption
  · rfl

/-- Where no rule is open, there is nothing to be closed. -/
theorem finish_of_closed {session : Session} (h : session.current = none) :
    session.finish = session := by
  simp [finish, h]

/-- An open rule is closed and filed under the name of its entry. -/
theorem finish_of_open {session : Session} {rule : OpenRule} (h : session.current = some rule) :
    session.finish = ⟨session.finished.insert rule.entry.name rule.close, none⟩ := by
  simp [finish, h]

/-- A line that ends a rule is read as by the session whose rule is closed. -/
theorem consume_of_endsRule {session : Session} {full : List Char}
    (h : endsRule full (Text.trim full)) : session.consume full = session.finish.consume full := by
  simp [consume, h, finish_of_closed]

/-- Where no rule is open, a line is looked at as a title. -/
theorem consume_of_closed {session : Session} {full : List Char} (h : session.current = none) :
    session.consume full = session.seekTitle (Text.trim full) := by
  simp [consume, h, finish_of_closed h]

/-- A line that does not end the open rule is read by that rule, and files nothing. -/
theorem consume_of_open {session : Session} {rule : OpenRule} {full : List Char}
    (h : session.current = some rule) (hends : ¬ endsRule full (Text.trim full)) :
    session.consume full
      = ({ session with current := some (rule.consume full (Text.trim full)) }, none) := by
  simp [consume, h, hends]

/-- The same for several lines: the rule reads them all, and nothing else changes. -/
theorem feed_of_open {session : Session} {rule : OpenRule} (h : session.current = some rule)
    {lines : List (List Char)} (hends : ∀ full ∈ lines, ¬ endsRule full (Text.trim full)) :
    session.feed lines = { session with current := some (rule.feed lines) } := by
  induction lines generalizing session rule with
  | nil => rw [feed_nil, OpenRule.feed, List.foldl_nil, ← h]
  | cons full rest ih =>
    rw [feed_cons, consume_of_open h (hends full List.mem_cons_self)]
    exact ih rfl fun line hline => hends line (List.mem_cons_of_mem full hline)

end Session

end RuleCatalogue
