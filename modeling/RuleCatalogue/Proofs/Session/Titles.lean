import Mathlib.Data.List.Forall2
import RuleCatalogue.Proofs.Session.Boundary
import RuleCatalogue.Proofs.Text.Substring
import RuleCatalogue.Report

/-!
# Titles and the rules that they open

The rules of a file are the titles that were accepted in it, each filed once however often it is
resumed.  A rule is opened at one line and filed at another, possibly after the last one, so the
names that are filed lag behind the titles; `Session.known` counts the rule that is open among them,
and grows at the titles and nowhere else.

A title spells a text, in braces or as the rest of its line, and the text is the name of a rule with
or without the ending.  Which names a title yields is known from how it is spelled, and the other
way round: what is not spelled so yields nothing.

## Main definitions

* `Session.Accepts` says of a line that it is accepted as a title.
* `Session.known` lists the names that are filed, and that of the open rule.
* `Session.titlePositions` lists the positions at which lines are accepted as titles.
* `Session.events` is what a log is told of the titles.
* `Line.Spells` says of a line that it spells a text as the title of a rule.
* `Line.Titles` says of a line that it is a title of a rule of this name.

## Main results

* `Session.known_feed`: the names known are those that titles opened.
* `Session.forall₂_titlePositions`: the titles are those of the lines that were accepted.
* `Catalogue.ofLines_fromTitles`: the rules of a file are exactly its accepted titles.
* `Line.ruleName?_eq_some_iff_titles`: the name that a title yields is the one it is spelled with.
-/

/-! ## Titles and rules -/

namespace RuleCatalogue

/-- The rule that an event tells of. -/
def Event.rule? (event : Event) : Option String :=
  match Fields.get? "rule" event.fields with
  | some (.text rule) => some rule
  | _ => none

/-- The rules that the events of this name tell of, in their order. -/
def Event.rulesOf (name : String) (events : List Event) : List String :=
  (events.filter fun event => event.name = name).filterMap Event.rule?

/-- The rule that a title opens, if it is new. -/
def Title.opened? : Title → Option String
  | .opened name => some name
  | .reopened _ => none

/-- **A word that can name a rule.** -/
structure IsRuleWord (name : String) : Prop where
  nonempty : name ≠ ""
  alphanumeric : ∀ c ∈ name.toList, Text.isAlphanumeric c
  notLowercase : ∃ c ∈ name.toList, Text.isLowercase c = false
  notReferences : name ≠ "References"

namespace Session

variable {session : Session} {full : List Char} {name : String} {title : Title}

/-! ## Lines that are accepted -/

/-- **A line is accepted as the title of a rule**: trimmed, it begins like a title and yields the
name, and it is met outside a rule or begins like a title at the very first column and is no list
item. -/
structure Accepts (session : Session) (full : List Char) (name : String) : Prop where
  start : Line.titleStart <+: Text.trim full
  yields : Line.ruleName? (Text.trim full) = some name.toList
  place : session.current = none
    ∨ Line.titleStart <+: full ∧ ¬ Line.listItemStart <+: Text.trim full

theorem titleName?_eq_some_iff {line : List Char} :
    titleName? line = some name
      ↔ Line.titleStart <+: line ∧ Line.ruleName? line = some name.toList := by
  rw [titleName?, ← List.isPrefixOf_iff_prefix]
  split
  · next hstart =>
    rw [Option.map_eq_some_iff]
    constructor
    · rintro ⟨characters, hcharacters, rfl⟩
      exact ⟨hstart, by rw [hcharacters, String.toList_ofList]⟩
    · rintro ⟨-, hname⟩
      exact ⟨name.toList, hname, String.ofList_toList⟩
  · next hstart =>
    constructor
    · intro h
      cases h
    · rintro ⟨hstarts, -⟩
      exact absurd hstarts hstart

theorem titleRule_openRule (session : Session) (name : String) :
    Event.titleRule (session.openRule name).2 = name := by
  rw [openRule]
  split <;> rfl

theorem map_titleRule_seekTitle (session : Session) (line : List Char) :
    (session.seekTitle line).2.map Event.titleRule = titleName? line := by
  cases htitle : titleName? line with
  | none => rw [seekTitle_of_noTitle htitle, Option.map_none]
  | some name => rw [seekTitle_of_title htitle, Option.map_some, titleRule_openRule]

/-- **The line tells of a title exactly where one is accepted**, with the name that
`Session.Accepts` reads from the line. -/
theorem map_titleRule_consume :
    (session.consume full).2.map Event.titleRule = some name ↔ session.Accepts full name := by
  have hclosed {s : Session} (hs : s.current = none) :
      (s.consume full).2.map Event.titleRule = some name
        ↔ Line.titleStart <+: Text.trim full
          ∧ Line.ruleName? (Text.trim full) = some name.toList := by
    rw [consume_of_closed hs, map_titleRule_seekTitle, titleName?_eq_some_iff]
  by_cases hends : endsRule full (Text.trim full)
  · rw [consume_of_endsRule hends, hclosed (current_finish session)]
    exact ⟨fun h => ⟨h.1, h.2, Or.inr (endsRule_iff.mp hends)⟩, fun h => ⟨h.start, h.yields⟩⟩
  · cases hcurrent : session.current with
    | none =>
      rw [hclosed hcurrent]
      exact ⟨fun h => ⟨h.1, h.2, Or.inl hcurrent⟩, fun h => ⟨h.start, h.yields⟩⟩
    | some rule =>
      rw [consume_of_open hcurrent hends, Option.map_none]
      refine ⟨nofun, fun h => ?_⟩
      -- Inside a rule a title is accepted only if it ends the rule.
      rcases h.place with hnone | hplace
      · exact nomatch hcurrent.symm.trans hnone
      · exact absurd (endsRule_iff.mpr hplace) hends

theorem Accepts.isRuleWord (h : session.Accepts full name) : IsRuleWord name := by
  have hname : Line.isRuleName name.toList := isRuleName_of_ruleName? h.yields
  simp only [Line.isRuleName, Bool.and_eq_true, Bool.not_eq_true', List.isEmpty_eq_false_iff,
    List.all_eq_true, List.all_eq_false, bne_iff_ne] at hname
  obtain ⟨⟨⟨hne, hall⟩, c, hc, hlower⟩, hreferences⟩ := hname
  refine ⟨fun hempty => hne (congrArg String.toList hempty), hall,
    ⟨c, hc, Bool.not_eq_true _ ▸ hlower⟩, fun h => hreferences (congrArg String.toList h)⟩

/-! ## The names that are known -/

/-- **The names that a session knows**: those that are filed, and behind them that of the open rule
if it is new. -/
def known (session : Session) : List String :=
  session.finished.keys ++ (session.current.toList.map fun rule => rule.entry.name).filter
    fun name => name ∉ session.finished.keys

theorem known_of_closed (h : session.current = none) : session.known = session.finished.keys := by
  rw [known, h, Option.toList_none, List.map_nil, List.filter_nil, List.append_nil]

theorem known_of_open {rule : OpenRule} (h : session.current = some rule) :
    session.known = if rule.entry.name ∈ session.finished.keys then session.finished.keys
      else session.finished.keys ++ [rule.entry.name] := by
  rw [known, h, Option.toList_some, List.map_singleton]
  split
  · next hfiled => rw [List.filter_cons_of_neg (by simpa using hfiled)]; simp
  · next hfiled => rw [List.filter_cons_of_pos (by simpa using hfiled)]; simp

/-- Closing the open rule files its name and makes none known. -/
theorem keys_finish (session : Session) : session.finish.finished.keys = session.known := by
  cases hcurrent : session.current with
  | none => rw [finish_of_closed hcurrent, known_of_closed hcurrent]
  | some rule => rw [finish_of_open hcurrent, known_of_open hcurrent, Table.keys_insert]

theorem known_finish (session : Session) : session.finish.known = session.known := by
  rw [known_of_closed (current_finish session), keys_finish]

/-- Outside a rule, a title makes its name known if it is new, and it resumes a rule only if the
name is known. -/
theorem known_seekTitle (h : session.current = none) (hfiled : session.Filed) (line : List Char) :
    (session.seekTitle line).1.known
        = session.known ++ (session.seekTitle line).2.toList.filterMap Title.opened?
      ∧ ∀ name, (session.seekTitle line).2 = some (.reopened name) → name ∈ session.known := by
  cases htitle : titleName? line with
  | none =>
    rw [seekTitle_of_noTitle htitle, Option.toList_none, List.filterMap_nil, List.append_nil]
    exact ⟨rfl, fun name => nofun⟩
  | some opened =>
    have hopened : (session.finished.entryOrNew opened).name = opened :=
      Catalogue.name_entryOrNew hfiled opened
    rw [seekTitle_of_title htitle, openRule_fst, known_of_open rfl, known_of_closed h, hopened]
    cases hget : session.finished.get? opened with
    | none =>
      have hnew : opened ∉ session.finished.keys := Table.get?_eq_none_iff.mp hget
      have htitle : (session.openRule opened).2 = .opened opened := by rw [openRule, hget]
      rw [htitle, if_neg hnew]
      exact ⟨rfl, fun name => nofun⟩
    | some e =>
      have hold : opened ∈ session.finished.keys := Fields.mem_keys_of_get? hget
      have htitle : (session.openRule opened).2 = .reopened opened := by rw [openRule, hget]
      rw [htitle, if_pos hold]
      refine ⟨(List.append_nil _).symm, fun name hreopened => ?_⟩
      cases hreopened
      exact hold

/-- **A line makes known what its title opens**, and resumes only what is known.  A title that
resumes an entry adds no name. -/
theorem known_consume (hfiled : session.Filed) (full : List Char) :
    (session.consume full).1.known
        = session.known ++ (session.consume full).2.toList.filterMap Title.opened?
      ∧ ∀ name, (session.consume full).2 = some (.reopened name) → name ∈ session.known := by
  by_cases hends : endsRule full (Text.trim full)
  · have hclosed : session.finish.current = none := current_finish session
    rw [consume_of_endsRule hends, consume_of_closed hclosed, ← known_finish session]
    exact known_seekTitle hclosed (filed_finish hfiled) _
  · cases hcurrent : session.current with
    | none =>
      rw [consume_of_closed hcurrent]
      exact known_seekTitle hcurrent hfiled _
    | some rule =>
      rw [consume_of_open hcurrent hends, known_of_open rfl, known_of_open hcurrent,
        OpenRule.name_consume]
      exact ⟨(List.append_nil _).symm, fun name => nofun⟩

/-- **After any lines, the names known are those that their titles opened**, in their order, by
induction with `known_consume`. -/
theorem known_feed (hfiled : session.Filed) (lines : List (List Char)) :
    (session.feed lines).known
      = session.known ++ (session.titles lines).filterMap Title.opened? := by
  induction lines generalizing session with
  | nil => rw [feed_nil, titles, List.filterMap_nil, List.append_nil]
  | cons full rest ih =>
    rw [feed_cons, titles, ih (filed_consume hfiled full),
      (known_consume hfiled full).1, List.filterMap_append, List.append_assoc]

/-- Where a rule is resumed, its name was known, or opened by a title before. -/
theorem mem_known_of_reopened (hfiled : session.Filed) {lines : List (List Char)}
    {before after : List Title}
    (h : session.titles lines = before ++ .reopened name :: after) :
    name ∈ session.known ++ before.filterMap Title.opened? := by
  induction lines generalizing session before with
  | nil => exact absurd h (by simp [titles])
  | cons full rest ih =>
    obtain ⟨hknown, hreopened⟩ := known_consume hfiled full
    rw [titles] at h
    cases htitle : (session.consume full).2 with
    | none =>
      rw [htitle, Option.toList_none, List.nil_append] at h
      rw [htitle, Option.toList_none, List.filterMap_nil, List.append_nil] at hknown
      rw [← hknown]
      exact ih (filed_consume hfiled full) h
    | some title =>
      rw [htitle, Option.toList_some, List.singleton_append] at h
      -- The title of this line is the one in question, or the first of those before it.
      cases before with
      | nil =>
        rw [List.nil_append] at h
        obtain ⟨rfl, -⟩ := List.cons.inj h
        exact List.mem_append_left _ (hreopened name htitle)
      | cons first others =>
        rw [List.cons_append] at h
        obtain ⟨rfl, hrest⟩ := List.cons.inj h
        have hmem := ih (filed_consume hfiled full) hrest
        rwa [hknown, htitle, Option.toList_some, List.append_assoc, ← List.filterMap_append]
          at hmem

/-! ## The positions of titles -/

/-- Whether the line at a position is accepted as a title, when the lines before it were read. -/
def acceptsAt (session : Session) (lines : List (List Char)) (position : Nat) : Bool :=
  lines[position]?.any fun full => ((session.feed (lines.take position)).consume full).2.isSome

/-- The positions of the lines that are accepted as titles, in increasing order. -/
def titlePositions (session : Session) (lines : List (List Char)) : List Nat :=
  (List.range lines.length).filter (session.acceptsAt lines)

/-- The line at a position is accepted as a title of the rule, when the lines before it were read.
-/
def AcceptsAt (session : Session) (lines : List (List Char)) (position : Nat) (name : String) :
    Prop :=
  ∃ full, lines[position]? = some full ∧ (session.feed (lines.take position)).Accepts full name

theorem acceptsAt_iff {lines : List (List Char)} {position : Nat} :
    session.acceptsAt lines position ↔ ∃ name, session.AcceptsAt lines position name := by
  rw [acceptsAt, Option.any_eq_true]
  constructor
  · rintro ⟨full, hfull, htitle⟩
    obtain ⟨title, htitle⟩ := Option.isSome_iff_exists.mp htitle
    exact ⟨Event.titleRule title, full, hfull,
      map_titleRule_consume.mp (by rw [htitle, Option.map_some])⟩
  · rintro ⟨name, full, hfull, haccepts⟩
    obtain ⟨title, htitle, -⟩ := Option.map_eq_some_iff.mp (map_titleRule_consume.mpr haccepts)
    exact ⟨full, hfull, by rw [htitle, Option.isSome_some]⟩

theorem mem_titlePositions {lines : List (List Char)} {position : Nat} :
    position ∈ session.titlePositions lines ↔ ∃ name, session.AcceptsAt lines position name := by
  rw [titlePositions, List.mem_filter, List.mem_range, acceptsAt_iff]
  refine ⟨fun h => h.2, fun h => ⟨?_, h⟩⟩
  obtain ⟨name, full, hfull, -⟩ := h
  exact (List.getElem?_eq_some_iff.mp hfull).1

theorem pairwise_titlePositions (session : Session) (lines : List (List Char)) :
    (session.titlePositions lines).Pairwise (· < ·) :=
  List.pairwise_lt_range.filter _

/-- What is accepted at a position does not depend on the lines behind it. -/
theorem acceptsAt_append {lines : List (List Char)} {position : Nat} (h : position < lines.length)
    (more : List (List Char)) :
    session.acceptsAt (lines ++ more) position = session.acceptsAt lines position := by
  rw [acceptsAt, acceptsAt, List.getElem?_append_left h, List.take_append_of_le_length h.le]

theorem titlePositions_snoc (session : Session) (lines : List (List Char)) (full : List Char) :
    session.titlePositions (lines ++ [full])
      = session.titlePositions lines
        ++ if ((session.feed lines).consume full).2.isSome then [lines.length] else [] := by
  have hlast : session.acceptsAt (lines ++ [full]) lines.length
      = ((session.feed lines).consume full).2.isSome := by
    rw [acceptsAt, List.getElem?_concat_length, List.take_left, Option.any_some]
  have hearlier : ∀ position ∈ List.range lines.length,
      session.acceptsAt (lines ++ [full]) position = session.acceptsAt lines position :=
    fun position hposition => acceptsAt_append (List.mem_range.mp hposition) [full]
  rw [titlePositions, List.length_append, List.length_singleton, List.range_succ,
    List.filter_append, List.filter_congr hearlier, List.filter_cons, hlast]
  rfl

/-- **The titles are those of the lines that were accepted**, one for each in their order;
`titlePositions` are the numbers of these lines. -/
theorem forall₂_titlePositions (session : Session) (lines : List (List Char)) :
    List.Forall₂ (fun position title => session.AcceptsAt lines position (Event.titleRule title))
      (session.titlePositions lines) (session.titles lines) := by
  induction lines using List.reverseRecOn with
  | nil => exact .nil
  | append_singleton lines full ih =>
    -- What the lines before the last one are accepted as does not depend on it.
    have hearlier : List.Forall₂
        (fun position title =>
          session.AcceptsAt (lines ++ [full]) position (Event.titleRule title))
        (session.titlePositions lines) (session.titles lines) := by
      refine ih.imp ?_
      rintro position title ⟨line, hline, haccepts⟩
      obtain ⟨hlt, -⟩ := List.getElem?_eq_some_iff.mp hline
      exact ⟨line, by rw [List.getElem?_append_left hlt, hline],
        by rwa [List.take_append_of_le_length hlt.le]⟩
    rw [titlePositions_snoc, titles_append]
    refine List.rel_append hearlier ?_
    rw [titles, titles, List.append_nil]
    cases htitle : ((session.feed lines).consume full).2 with
    | none => exact .nil
    | some title =>
      refine .cons ⟨full, List.getElem?_concat_length, ?_⟩ .nil
      rw [List.take_left]
      exact map_titleRule_consume.mp (by rw [htitle, Option.map_some])

/-! ## Whole files -/

/-- **What a log is told** of the titles in lines of a file. -/
def events (file : Option String) (lines : List String) : List Event :=
  (readLines lines).2.map fun title => .title title file

theorem rulesOf_opened (file : Option String) (titles : List Title) :
    Event.rulesOf "apt_rule_opened" (titles.map fun title => .title title file)
      = titles.filterMap Title.opened? := by
  induction titles with
  | nil => rfl
  | cons title rest ih =>
    cases title with
    | opened name => exact congrArg (name :: ·) ih
    | reopened name => exact ih

theorem events_eq (file : Option String) (lines : List String) :
    events file lines
      = (start.titles (lines.map dropLineEnd)).map fun title => .title title file := by
  rw [events, readLines_eq]

/-- Every title of a run names its rule by a word. -/
theorem isRuleWord_of_mem_titles {lines : List (List Char)} (h : title ∈ session.titles lines) :
    IsRuleWord (Event.titleRule title) := by
  obtain ⟨i, hi, rfl⟩ := List.getElem_of_mem h
  have hpositions := session.forall₂_titlePositions lines
  have hlt : i < (session.titlePositions lines).length := by rwa [hpositions.length_eq]
  obtain ⟨full, -, haccepts⟩ := hpositions.get hlt hi
  exact haccepts.isRuleWord

theorem titleRule_of_opened? (h : title.opened? = some name) : Event.titleRule title = name := by
  cases title with
  | opened rule => exact Option.some.inj h
  | reopened rule => cases h

end Session

/-- **Rules that are exactly the titles accepted in some lines**, with the events told of them. -/
structure Catalogue.FromTitles (rules : Catalogue) (lines : List (List Char))
    (events : List Event) : Prop where
  keys : rules.keys = Event.rulesOf "apt_rule_opened" events
  nodup : rules.keys.Nodup
  /-- A rule is resumed only behind the event that opened it. -/
  reopened : ∀ before event after, events = before ++ event :: after →
    event.name = "apt_rule_reopened" →
      ∃ rule ∈ Event.rulesOf "apt_rule_opened" before, event.rule? = some rule
  /-- The events are those of the lines that are accepted, one for each in their order. -/
  accepted : ∃ positions : List Nat, positions.Pairwise (· < ·)
    ∧ (∀ position, position ∈ positions
        ↔ ∃ name, Session.start.AcceptsAt lines position name)
    ∧ List.Forall₂ (fun position event =>
        (event.name = "apt_rule_opened" ∨ event.name = "apt_rule_reopened")
          ∧ ∃ rule, event.rule? = some rule ∧ Session.start.AcceptsAt lines position rule)
        positions events
  named : ∀ name ∈ rules.keys, ∃ e, rules.get? name = some e ∧ e.name = name
  words : ∀ name ∈ rules.keys, IsRuleWord name

/-- **The rules of a file are exactly its accepted titles.** `FromTitles` says so with the positions
of the lines, in both directions, and for the events that tell of titles.  Nothing is asked of the
lines. -/
theorem Catalogue.ofLines_fromTitles (file : Option String) (lines : List String) :
    (ofLines lines).FromTitles (lines.map Session.dropLineEnd) (Session.events file lines) := by
  -- At the end the open rule is closed, so that all names that are known are filed.
  have hkeys : (ofLines lines).keys
      = (Session.start.titles (lines.map Session.dropLineEnd)).filterMap Title.opened? := by
    rw [Session.ofLines_eq, Session.keys_finish, Session.known_feed Session.filed_start]
    rfl
  rw [Session.events_eq]
  refine ⟨?_, (ofLines lines).nodup, ?_, ?_, fun name hname => ?_, fun name hname => ?_⟩
  · rw [hkeys, Session.rulesOf_opened]
  · rintro before event after hsplit hname
    obtain ⟨earlier, others, htitles, rfl, hothers⟩ := List.map_eq_append_iff.mp hsplit
    obtain ⟨title, later, rfl, rfl, rfl⟩ := List.map_eq_cons_iff.mp hothers
    cases title with
    | opened rule => exact absurd hname (by simp [Event.name])
    | reopened rule =>
      refine ⟨rule, ?_, rfl⟩
      rw [Session.rulesOf_opened]
      exact Session.mem_known_of_reopened Session.filed_start htitles
  · refine ⟨Session.start.titlePositions _, Session.start.pairwise_titlePositions _,
      fun position => Session.mem_titlePositions, ?_⟩
    rw [List.forall₂_map_right_iff]
    refine (Session.start.forall₂_titlePositions _).imp ?_
    intro position title haccepts
    refine ⟨?_, Event.titleRule title, rfl, haccepts⟩
    cases title with
    | opened rule => exact Or.inl rfl
    | reopened rule => exact Or.inr rfl
  · exact ⟨_, get?_of_mem_keys hname, name_entryOrNew (filed_ofLines lines) name⟩
  · rw [hkeys, List.mem_filterMap] at hname
    obtain ⟨title, htitle, hopened⟩ := hname
    rw [← Session.titleRule_of_opened? hopened]
    exact Session.isRuleWord_of_mem_titles htitle

end RuleCatalogue

/-! ## Titles and the names in them -/

namespace RuleCatalogue

open Text

/-- Words that can name a rule are told by the test on their characters. -/
theorem isRuleWord_iff {name : String} : IsRuleWord name ↔ Line.isRuleName name.toList := by
  simp only [Line.isRuleName, Bool.and_eq_true, Bool.not_eq_true', List.isEmpty_eq_false_iff,
    List.all_eq_true, List.all_eq_false, bne_iff_ne, Bool.not_eq_true]
  constructor
  · rintro ⟨hne, hall, hlower, hreferences⟩
    refine ⟨⟨⟨?_, hall⟩, hlower⟩, ?_⟩
    · rwa [ne_eq, String.toList_eq_nil_iff]
    · exact fun h => hreferences (String.toList_inj.mp h)
  · rintro ⟨⟨⟨hne, hall⟩, hlower⟩, hreferences⟩
    refine ⟨?_, hall, hlower, ?_⟩
    · rwa [ne_eq, ← String.toList_eq_nil_iff]
    · exact fun h => hreferences (congrArg String.toList h)

namespace Line

variable {s text before after : List Char} {name : String}

/-- **A line spells a text as the title of a rule**: in braces and with anything behind them, or as
the rest of the line; blank characters may stand around the text. -/
inductive Spells (text : List Char) : List Char → Prop
  | braced {before after : List Char} (hbefore : ∀ c ∈ before, isBlank c)
      (hafter : ∀ c ∈ after, isBlank c) (more : List Char) :
      Spells text (bracedTitleStart ++ (before ++ (text ++ after) ++ (bracedTitleEnd ++ more)))
  | plain {before after : List Char} (hbefore : ∀ c ∈ before, isBlank c)
      (hafter : ∀ c ∈ after, isBlank c) : Spells text (titleStart ++ (before ++ (text ++ after)))

theorem Spells.isInfix (h : Spells text s) : text <:+: s := by
  cases h with
  | @braced before after hbefore hafter more =>
    exact ⟨bracedTitleStart ++ before, after ++ (bracedTitleEnd ++ more), by
      simp only [List.append_assoc]⟩
  | @plain before after hbefore hafter =>
    exact ⟨titleStart ++ before, after, by simp only [List.append_assoc]⟩

/-- **A line is a title of a rule of this name**, spelled with the ending, or without it if the name
does not end so itself. -/
def Titles (name : String) (s : List Char) : Prop :=
  Spells (name.toList ++ ruleEnding) s ∨ Spells name.toList s ∧ ¬ ruleEnding <:+ name.toList

theorem Titles.isInfix (h : Titles name s) : name.toList <:+: s := by
  rcases h with h | ⟨h, -⟩
  · exact (List.prefix_append _ _).isInfix.trans h.isInfix
  · exact h.isInfix

/-! ## The text of a title -/

/-- A title that begins with a brace holds its text up to the end of the braces, if they end. -/
theorem titleText?_braced (rest : List Char) :
    titleText? (bracedTitleStart ++ rest)
      = (splitAtFirst? bracedTitleEnd rest).map fun (text, _) => trim text := by
  have hstart : bracedTitleStart.isPrefixOf (bracedTitleStart ++ rest) :=
    List.isPrefixOf_iff_prefix.mpr (List.prefix_append _ _)
  rw [titleText?, if_pos hstart, List.drop_left]

/-- Without the end of the braces there is no text. -/
theorem titleText?_unclosed {rest : List Char} (h : ¬ bracedTitleEnd <:+: rest) :
    titleText? (bracedTitleStart ++ rest) = none := by
  rw [titleText?_braced, Option.map_eq_none_iff, ← Option.not_isSome_iff_eq_none]
  intro hfound
  obtain ⟨⟨before, after⟩, hsplit⟩ := Option.isSome_iff_exists.mp hfound
  refine h ⟨before, after, ?_⟩
  rw [eq_append_of_splitAtFirst? hsplit, List.append_assoc]

/-- **What a title spells is its text**, if the text is a word.  `hne` and `hword` are needed in
this direction only: what is read is a word already. -/
theorem Spells.titleText? (h : Spells text s) (hne : text ≠ [])
    (hword : ∀ c ∈ text, isAlphanumeric c) : Line.titleText? s = some text := by
  have htrimmed : Trimmed text :=
    ⟨fun c hc => isBlank_of_isAlphanumeric (hword c (List.mem_of_mem_head? hc)),
      fun c hc => isBlank_of_isAlphanumeric (hword c (List.mem_of_mem_getLast? hc))⟩
  cases h with
  | @braced before after hbefore hafter more =>
    -- No brace stands in the text or beside it, so the first one is that of the end.
    have hinside : '}' ∉ before ++ (text ++ after) := by
      simp only [List.mem_append, not_or]
      exact ⟨fun hc => absurd (hbefore _ hc) (by decide),
        fun hc => absurd (hword _ hc) (by decide +kernel),
        fun hc => absurd (hafter _ hc) (by decide)⟩
    have hsplit : splitAtFirst? bracedTitleEnd
          (before ++ (text ++ after) ++ (bracedTitleEnd ++ more))
        = some (before ++ (text ++ after), more) :=
      splitAtFirst?_append_of_not_mem hinside more
    rw [titleText?_braced]
    exact (congrArg (Option.map _) hsplit).trans
      (congrArg some (trim_padded hbefore hafter htrimmed))
  | @plain before after hbefore hafter =>
    have hstart : ¬ bracedTitleStart.isPrefixOf (titleStart ++ (before ++ (text ++ after))) := by
      rw [List.isPrefixOf_iff_prefix]
      intro hprefix
      have hbrace : ['{'] <+: before ++ (text ++ after) :=
        (List.prefix_append_right_inj titleStart).mp hprefix
      obtain ⟨rest, hrest⟩ := hbrace
      have hfirst : (before ++ (text ++ after)).head? = some '{' := by rw [← hrest]; rfl
      cases before with
      | cons c before =>
        cases hfirst
        exact absurd (hbefore _ List.mem_cons_self) (by decide)
      | nil =>
        obtain ⟨c, word, rfl⟩ := List.exists_cons_of_ne_nil hne
        cases hfirst
        exact absurd (hword _ List.mem_cons_self) (by decide +kernel)
    rw [Line.titleText?, if_neg hstart, List.drop_left, trim_padded hbefore hafter htrimmed]

/-- **The text of a title is spelled by it**, so no name is read that the line does not hold. -/
theorem spells_of_titleText? (hstart : titleStart <+: s) (h : titleText? s = some text) :
    Spells text s := by
  by_cases hbrace : bracedTitleStart <+: s
  · obtain ⟨rest, rfl⟩ := hbrace
    rw [titleText?_braced] at h
    obtain ⟨⟨inside, behind⟩, hsplit, rfl⟩ := Option.map_eq_some_iff.mp h
    obtain ⟨before, after, hinside, hbefore, hafter⟩ := exists_eq_trim inside
    have hspelled : Spells (trim inside) (bracedTitleStart
        ++ (before ++ (trim inside ++ after) ++ (bracedTitleEnd ++ behind))) :=
      .braced hbefore hafter behind
    rwa [← hinside, ← eq_append_of_splitAtFirst? hsplit] at hspelled
  · obtain ⟨rest, rfl⟩ := hstart
    rw [titleText?, if_neg (mt List.isPrefixOf_iff_prefix.mp hbrace), List.drop_left] at h
    cases h
    obtain ⟨before, after, hrest, hbefore, hafter⟩ := exists_eq_trim rest
    have hspelled : Spells (trim rest) (titleStart ++ (before ++ (trim rest ++ after))) :=
      .plain hbefore hafter
    rwa [← hrest] at hspelled

/-! ## The name in it -/

theorem dropEnding_append (ending s : List Char) : dropEnding ending (s ++ ending) = s := by
  rw [dropEnding, if_pos (List.isSuffixOf_iff_suffix.mpr (List.suffix_append s ending)),
    List.length_append, Nat.add_sub_cancel, List.take_left]

theorem dropEnding_of_not_suffix {ending s : List Char} (h : ¬ ending <:+ s) :
    dropEnding ending s = s :=
  if_neg (mt List.isSuffixOf_iff_suffix.mp h)

/-- A text is what is left of it without the ending, with the ending or because it has none. -/
theorem eq_of_dropEnding (ending s : List Char) :
    s = dropEnding ending s ++ ending
      ∨ s = dropEnding ending s ∧ ¬ ending <:+ dropEnding ending s := by
  by_cases h : ending <:+ s
  · obtain ⟨front, rfl⟩ := h
    rw [dropEnding_append]
    exact Or.inl rfl
  · rw [dropEnding_of_not_suffix h]
    exact Or.inr ⟨rfl, h⟩

/-- **A title yields the name that its text has without the ending**, if that can name a rule.  The
ending is dropped once. -/
theorem ruleName?_eq_some_iff_text (hstart : titleStart <+: s) :
    ruleName? s = some name.toList
      ↔ ∃ text, titleText? s = some text ∧ dropEnding ruleEnding text = name.toList
        ∧ IsRuleWord name := by
  have hblank : ¬ s.all isBlank := by
    rw [List.all_eq_true]
    exact fun h => absurd (h '*' (hstart.subset (by decide))) (by decide)
  rw [ruleName?, if_neg hblank, Option.bind_eq_some_iff, isRuleWord_iff]
  refine exists_congr fun text => and_congr_right fun _ => ?_
  dsimp only
  constructor
  · intro h
    split at h
    · next hname =>
      rw [← Option.some.inj h]
      exact ⟨rfl, hname⟩
    · cases h
  · rintro ⟨hname, hword⟩
    rw [hname, if_pos hword]

/-- **A title yields exactly the name that it is spelled with.** `Titles` is the grammar of titles,
and does not speak of how they are searched. -/
theorem ruleName?_eq_some_iff_titles (hstart : titleStart <+: s) :
    ruleName? s = some name.toList ↔ IsRuleWord name ∧ Titles name s := by
  rw [ruleName?_eq_some_iff_text hstart]
  constructor
  · rintro ⟨text, htext, hname, hword⟩
    have hspelled := spells_of_titleText? hstart htext
    refine ⟨hword, ?_⟩
    rcases eq_of_dropEnding ruleEnding text with hending | ⟨hplain, hnot⟩
    · rw [hname] at hending
      exact Or.inl (hending ▸ hspelled)
    · rw [hname] at hplain hnot
      exact Or.inr ⟨hplain ▸ hspelled, hnot⟩
  · rintro ⟨hword, htitles⟩
    have hne : name.toList ≠ [] := fun h => hword.nonempty (String.toList_eq_nil_iff.mp h)
    rcases htitles with hspelled | ⟨hspelled, hnot⟩
    · refine ⟨name.toList ++ ruleEnding, ?_, dropEnding_append _ _, hword⟩
      refine hspelled.titleText? (List.append_ne_nil_of_left_ne_nil hne _) fun c hc => ?_
      have hending : ∀ c ∈ ruleEnding, isAlphanumeric c :=
        List.all_eq_true.mp (by decide +kernel)
      exact (List.mem_append.mp hc).elim (hword.alphanumeric c) (hending c)
    · exact ⟨name.toList, hspelled.titleText? hne hword.alphanumeric,
        dropEnding_of_not_suffix hnot, hword⟩

/-- **The name of a rule is found in a title, and nothing else is taken for one**: a title yields a
name exactly if that can name a rule and the title is spelled with it, so the name stands in the
title; and a title with an open brace alone yields none. -/
theorem ruleName?_title (hstart : titleStart <+: s) :
    (∀ name : String, ruleName? s = some name.toList ↔ IsRuleWord name ∧ Titles name s)
      ∧ (∀ name : String, ruleName? s = some name.toList → name.toList <:+: s)
      ∧ (∀ rest, s = bracedTitleStart ++ rest → ¬ bracedTitleEnd <:+: rest →
          ruleName? s = none) := by
  refine ⟨fun name => ruleName?_eq_some_iff_titles hstart, fun name h => ?_, ?_⟩
  · exact ((ruleName?_eq_some_iff_titles hstart).mp h).2.isInfix
  · rintro rest rfl hopen
    rw [ruleName?, titleText?_unclosed hopen, Option.bind_none, ite_self]

/-- A name with the ending in braces, and braces that do not end. -/
theorem ruleName?_title_braces :
    titleStart <+: "* {  AbcMetricRule } Rule 2".toList
      ∧ IsRuleWord "AbcMetric" ∧ Titles "AbcMetric" "* {  AbcMetricRule } Rule 2".toList
      ∧ ruleName? "* {  AbcMetricRule } Rule 2".toList = some "AbcMetric".toList
      ∧ titleStart <+: "* {Foo} rule".toList
      ∧ ¬ bracedTitleEnd <:+: "Foo\x7d rule".toList
      ∧ ruleName? "* {Foo} rule".toList = none := by
  have hstart : titleStart <+: "* {  AbcMetricRule } Rule 2".toList := by decide
  have hopen : titleStart <+: "* {Foo} rule".toList := by decide
  have hword : IsRuleWord "AbcMetric" := isRuleWord_iff.mpr (by decide +kernel)
  have hblanks (n : Nat) : ∀ c ∈ List.replicate n ' ', isBlank c := by
    intro c hc
    rw [List.eq_of_mem_replicate hc]
    rfl
  have htitles : Titles "AbcMetric" "* {  AbcMetricRule } Rule 2".toList :=
    Or.inl (.braced (hblanks 2) (hblanks 1) " 2".toList)
  have hunclosed : ¬ bracedTitleEnd <:+: "Foo\x7d rule".toList := by
    have hcapital : 'R' ∈ bracedTitleEnd := by decide
    exact fun h => absurd (h.subset hcapital) (by decide)
  obtain ⟨hnames, -, -⟩ := ruleName?_title hstart
  obtain ⟨-, -, hnone⟩ := ruleName?_title hopen
  exact ⟨hstart, hword, htitles, (hnames "AbcMetric").mpr ⟨hword, htitles⟩, hopen, hunclosed,
    hnone _ rfl hunclosed⟩

end Line

end RuleCatalogue
