import RuleCatalogue.Proofs.Catalogue
import RuleCatalogue.Proofs.Session.Step

/-!
# Where a rule begins and ends

A line that begins like a title ends the rule before it, so what was read before matters to the
lines behind it in one way alone: as the catalogue whose entries they may resume.  Reading two
lists of lines one after the other is therefore reading each by itself and letting the second
catalogue follow the first (`Catalogue.ofLines_append`).

Whatever the lines, the catalogue of a file is regular: its rules are filed under their own names,
which are words, and no blank parameter gets in.

## Main definitions

* `Catalogue.followedBy` lets the entries of one catalogue go on where those of another stopped.
* `Session.onTop` is a session as it would be, had the lines before it left a catalogue.

## Design notes

The proof is a simulation whose relation is a function: `Session.onTop base` commutes with every
step, whatever the mode of the open rule (`consume_onTop`).  It rests on the fact that a line does
the same to every entry (`OpenRule.consume_mapEntry`), and on the invariant that every entry is
filed under its own name (`Catalogue.Filed`).

That a line adds no blank parameter is not proved line by line.  Leaving the blank parameters of an
entry out is a change that reading does not notice (`RuleEntry.additive_withoutBlanks`), so an entry
that this change leaves alone stays such an entry.
-/

/-! ## Reading on from a title -/

namespace RuleCatalogue

namespace Catalogue

/-! ## One catalogue after another -/

/-- The entry as it is on top of `base`, where its name may have been filed before. -/
def resume (base : Catalogue) (e : RuleEntry) : RuleEntry :=
  (base.entryOrNew e.name).followedBy e

/-- **A catalogue read on top of another**: the entries of both go on where the earlier ones
stopped. -/
def followedBy (earlier later : Catalogue) : Catalogue :=
  Table.joinWith RuleEntry.followedBy earlier later

/-- The names of the earlier catalogue come first; the later one adds those that are new. -/
theorem keys_followedBy (earlier later : Catalogue) :
    (earlier.followedBy later).keys
      = earlier.keys ++ later.keys.filter fun name => name ∉ earlier.keys :=
  Table.keys_joinWith RuleEntry.followedBy earlier later

/-- Under a name that both have, the entry of the later goes on where that of the earlier stopped.
-/
theorem get?_followedBy (earlier later : Catalogue) (name : String) :
    (earlier.followedBy later).get? name =
      ((earlier.get? name).map fun e =>
        ((later.get? name).map e.followedBy).getD e).or (later.get? name) :=
  Table.get?_joinWith RuleEntry.followedBy earlier later name

/-! ## Resumed entries -/

/-- An entry keeps its name on top of a catalogue whose entries are filed under their own names. -/
theorem name_resume {base : Catalogue} (h : base.Filed) (e : RuleEntry) :
    (base.resume e).name = e.name :=
  name_entryOrNew h e.name

/-- What is added to an entry is added behind what the base has, so it may be added before or after
the base is put below. -/
theorem additive_resume (base : Catalogue) : RuleEntry.Additive base.resume where
  append e text := by
    rw [resume, RuleEntry.name_append]
    exact (RuleEntry.additive_followedBy _).append e text
  addParameter e p := by
    rw [resume, RuleEntry.name_addParameter]
    exact (RuleEntry.additive_followedBy _).addParameter e p

/-- Nothing follows: the catalogue is as it was. -/
theorem followedBy_empty (base : Catalogue) : base.followedBy ∅ = base := by
  refine Table.ext_get? (by rw [keys_followedBy]; simp) fun name => ?_
  rw [get?_followedBy]
  cases base.get? name <;> rfl

/-- Filing an entry on top of `base` is filing what it is when it resumes the entry there. -/
theorem followedBy_insert (base c : Catalogue) (e : RuleEntry) :
    base.followedBy (c.insert e.name e) = (base.followedBy c).insert e.name (base.resume e) := by
  refine Table.ext_get? ?_ fun name => ?_
  · simp only [keys_followedBy, Table.keys_insert]
    by_cases hbase : e.name ∈ base.keys
    · by_cases hc : e.name ∈ c.keys <;> simp [hbase, hc]
    · by_cases hc : e.name ∈ c.keys <;> simp [hbase, hc]
  · rw [get?_followedBy, Table.get?_insert, Table.get?_insert, get?_followedBy, resume,
      entryOrNew]
    by_cases hname : e.name = name
    · subst hname
      cases base.get? e.name <;> simp [RuleEntry.new_followedBy]
    · simp [hname]

/-- The entry under a name on top of `base` resumes the entry there. -/
theorem entryOrNew_followedBy {c : Catalogue} (h : c.Filed) (base : Catalogue) (name : String) :
    (base.followedBy c).entryOrNew name
      = (base.entryOrNew name).followedBy (c.entryOrNew name) := by
  have hname : (c.entryOrNew name).name = name := name_entryOrNew h name
  have hget := get?_followedBy base c name
  rw [entryOrNew, hget, entryOrNew]
  cases base.get? name with
  | none =>
    have hnew := RuleEntry.new_followedBy (c.entryOrNew name)
    rw [hname] at hnew
    exact hnew.symm
  | some earlier =>
    rw [entryOrNew]
    cases c.get? name <;> simp

end Catalogue

/-! ## A session on top of a catalogue -/

namespace Session

/-- Every closed rule is filed under its own name. -/
def Filed (session : Session) : Prop :=
  session.finished.Filed

/-- Finishing files the open entry under its own name. -/
theorem filed_finish {session : Session} (h : session.Filed) : session.finish.Filed := by
  cases hcurrent : session.current with
  | none => rwa [finish_of_closed hcurrent]
  | some rule =>
    rw [finish_of_open hcurrent, ← OpenRule.name_close]
    exact Catalogue.filed_insert h rule.close

/-- Looking for a title hands over no rule. -/
theorem finished_seekTitle (session : Session) (line : List Char) :
    (session.seekTitle line).1.finished = session.finished := by
  cases htitle : titleName? line with
  | none => rw [seekTitle_of_noTitle htitle]
  | some name => rw [seekTitle_of_title htitle, openRule_fst]

/-- A line files nothing but the rule that it ends. -/
theorem finished_consume (session : Session) (full : List Char) :
    (session.consume full).1.finished =
      if endsRule full (Text.trim full) then session.finish.finished else session.finished := by
  by_cases hends : endsRule full (Text.trim full)
  · rw [if_pos hends, consume_of_endsRule hends, consume_of_closed (current_finish session),
      finished_seekTitle]
  · rw [if_neg hends]
    cases hcurrent : session.current with
    | none => rw [consume_of_closed hcurrent, finished_seekTitle]
    | some rule => rw [consume_of_open hcurrent hends]

/-- **Every line keeps the entries filed under their own names.** A line files an entry in one place
alone, `Session.finish`, and there under its name. -/
theorem filed_consume {session : Session} (h : session.Filed) (full : List Char) :
    (session.consume full).1.Filed := by
  rw [Filed, finished_consume]
  split
  · exact filed_finish h
  · exact h

/-- So do any lines, by induction on them. -/
theorem filed_feed {session : Session} (h : session.Filed) (lines : List (List Char)) :
    (session.feed lines).Filed :=
  feed_induction h (fun _ full hs => filed_consume hs full) lines

/-- At the beginning nothing is filed. -/
theorem filed_start : start.Filed := by
  intro name e h
  cases h

/-- **The session as it would be on top of `base`**: its entries resume those of `base`. -/
def onTop (base : Catalogue) (session : Session) : Session where
  finished := base.followedBy session.finished
  current := session.current.map (OpenRule.mapEntry base.resume)

variable {base : Catalogue} {session : Session}

/-- Finishing commutes with putting a catalogue below: the open entry is filed where the base has
the entry it resumes. -/
theorem finish_onTop (hbase : base.Filed) (session : Session) :
    (session.onTop base).finish = session.finish.onTop base := by
  cases hcurrent : session.current with
  | none =>
    have htop : (session.onTop base).current = none := by simp [onTop, hcurrent]
    rw [finish_of_closed htop, finish_of_closed hcurrent]
  | some rule =>
    have htop : (session.onTop base).current = some (rule.mapEntry base.resume) := by
      simp [onTop, hcurrent]
    have hfiled := Catalogue.followedBy_insert base session.finished rule.close
    rw [OpenRule.name_close] at hfiled
    rw [finish_of_open htop, finish_of_open hcurrent,
      OpenRule.close_mapEntry (Catalogue.additive_resume base), OpenRule.entry_mapEntry,
      Catalogue.name_resume hbase]
    simp [onTop, hfiled]

/-- A title resumes the entry of its name, which may be in the base or among the finished ones. -/
theorem seekTitle_onTop (hs : session.Filed) (line : List Char) :
    ((session.onTop base).seekTitle line).1 = (session.seekTitle line).1.onTop base := by
  cases htitle : titleName? line with
  | none => rw [seekTitle_of_noTitle htitle, seekTitle_of_noTitle htitle]
  | some name =>
    have hentry : (base.followedBy session.finished).entryOrNew name
        = base.resume (session.finished.entryOrNew name) := by
      rw [Catalogue.entryOrNew_followedBy hs, Catalogue.resume, Catalogue.name_entryOrNew hs]
    rw [seekTitle_of_title htitle, seekTitle_of_title htitle, openRule_fst, openRule_fst]
    simp [onTop, hentry, OpenRule.mapEntry]

/-- **A step does not notice what lies below.** `hbase` and `hs` are the invariant `Filed` of the
two catalogues: without it an entry might resume another one than that of its name. -/
theorem consume_onTop (hbase : base.Filed) (hs : session.Filed) (full : List Char) :
    ((session.onTop base).consume full).1 = (session.consume full).1.onTop base := by
  have closed {s : Session} (hs : s.Filed) (hcurrent : s.current = none) :
      ((s.onTop base).consume full).1 = (s.consume full).1.onTop base := by
    have htop : (s.onTop base).current = none := by simp [onTop, hcurrent]
    rw [consume_of_closed htop, consume_of_closed hcurrent, seekTitle_onTop hs]
  by_cases hends : endsRule full (Text.trim full)
  · have hready : session.consume full = session.finish.consume full := consume_of_endsRule hends
    rw [consume_of_endsRule hends, hready, finish_onTop hbase]
    exact closed (filed_finish hs) (current_finish session)
  · cases hcurrent : session.current with
    | none => exact closed hs hcurrent
    | some rule =>
      have htop : (session.onTop base).current = some (rule.mapEntry base.resume) := by
        simp [onTop, hcurrent]
      rw [consume_of_open htop hends, consume_of_open hcurrent hends,
        OpenRule.consume_mapEntry (Catalogue.additive_resume base)]
      rfl

/-- **Reading commutes with putting a catalogue below**, for any lines, by induction on them with
`consume_onTop` and `filed_consume`. -/
theorem feed_onTop (hbase : base.Filed) (hs : session.Filed) (lines : List (List Char)) :
    (session.onTop base).feed lines = (session.feed lines).onTop base := by
  induction lines generalizing session with
  | nil => rfl
  | cons full rest ih =>
    rw [feed_cons, feed_cons, consume_onTop hbase hs, ih (filed_consume hs full)]

/-- A session whose rule is closed lies on top of its catalogue. -/
theorem finish_eq_onTop (session : Session) :
    session.finish = start.onTop session.finish.finished := by
  have hcurrent : session.finish.current = none := current_finish session
  cases hfinish : session.finish with
  | mk finished current =>
    rw [hfinish] at hcurrent
    subst hcurrent
    simp [onTop, start, Catalogue.followedBy_empty]

end Session

namespace Catalogue

/-- The catalogue of some lines is filed. -/
theorem filed_ofLines (lines : List String) : (ofLines lines).Filed := by
  rw [Session.ofLines_eq]
  exact Session.filed_finish (Session.filed_feed Session.filed_start _)

/-- **Lines behind a title are read on top of the catalogue of the lines before it.** That `first`
ends a rule makes the session between the two parts one without an open rule, and so a catalogue and
nothing else. -/
theorem ofLines_append {first : String}
    (h : Session.endsRule (Session.dropLineEnd first) (Text.trim (Session.dropLineEnd first)))
    (before rest : List String) :
    ofLines (before ++ first :: rest) = (ofLines before).followedBy (ofLines (first :: rest)) := by
  let ended := Session.start.feed (before.map Session.dropLineEnd)
  have hbase : ended.finish.finished = ofLines before := (Session.ofLines_eq before).symm
  have hfirst : (ended.consume (Session.dropLineEnd first)).1
      = ((Session.start.onTop (ofLines before)).consume (Session.dropLineEnd first)).1 := by
    rw [Session.consume_of_endsRule h, Session.finish_eq_onTop, hbase]
  calc ofLines (before ++ first :: rest)
      = ((Session.start.onTop (ofLines before)).feed
          ((first :: rest).map Session.dropLineEnd)).finish.finished := by
        rw [Session.ofLines_eq, List.map_append, Session.feed_append, List.map_cons,
          Session.feed_cons, Session.feed_cons, hfirst]
    _ = ((Session.start.feed ((first :: rest).map Session.dropLineEnd)).finish.onTop
          (ofLines before)).finished := by
        rw [Session.feed_onTop (filed_ofLines before) Session.filed_start,
          Session.finish_onTop (filed_ofLines before)]
    _ = (ofLines before).followedBy (ofLines (first :: rest)) := by
        rw [Session.ofLines_eq (first :: rest)]
        rfl

/-- **Reading is compositional at titles.**  Where the second list of lines begins with a line that
begins like a title, accepted or not, both lists together give the catalogue of the first followed
by that of the second: the names keep the order in which they were first filed, descriptions follow
one another, and parameters are united. -/
theorem ofLines_append_title (before : List String) {first : String} (rest : List String)
    (hstart : Line.titleStart <+: Session.dropLineEnd first)
    (hitem : ¬ Line.listItemStart <+: Text.trim (Session.dropLineEnd first)) :
    let whole := ofLines (before ++ first :: rest)
    let earlier := ofLines before
    let later := ofLines (first :: rest)
    whole = earlier.followedBy later
      ∧ whole.keys = earlier.keys ++ later.keys.filter (fun name => name ∉ earlier.keys)
      ∧ ∀ name,
        (whole.entryOrNew name).name = name
        ∧ (whole.entryOrNew name).rawDescription
            = (earlier.entryOrNew name).rawDescription ++ (later.entryOrNew name).rawDescription
        ∧ (whole.entryOrNew name).parameters
            = (earlier.entryOrNew name).parameters.union (later.entryOrNew name).parameters := by
  intro whole earlier later
  have hwhole : whole = earlier.followedBy later :=
    ofLines_append (Session.endsRule_iff.mpr ⟨hstart, hitem⟩) before rest
  refine ⟨hwhole, hwhole ▸ keys_followedBy earlier later, fun name => ?_⟩
  have hentry := entryOrNew_followedBy (filed_ofLines (first :: rest)) earlier name
  rw [hwhole, hentry]
  exact ⟨name_entryOrNew (filed_ofLines before) name, rfl, rfl⟩

/-- A title behind a table whose last parameter is still in progress resumes the same rule. -/
theorem ofLines_append_title_resumed :
    let before := ["* {Foo} Rule", "  First.", "*---+---+---+", "|key|one| 1 |"]
    let rest := ["  Second.", "* {Bar} Rule"]
    Line.titleStart <+: Session.dropLineEnd "* FooRule\r\n"
      ∧ ¬ Line.listItemStart <+: Text.trim (Session.dropLineEnd "* FooRule\r\n")
      ∧ ofLines (before ++ "* FooRule\r\n" :: rest)
        = (ofLines before).followedBy (ofLines ("* FooRule\r\n" :: rest)) := by
  intro before rest
  have hstart : Line.titleStart <+: Session.dropLineEnd "* FooRule\r\n" := by decide
  have hitem : ¬ Line.listItemStart <+: Text.trim (Session.dropLineEnd "* FooRule\r\n") := by
    decide
  exact ⟨hstart, hitem, (ofLines_append_title before rest hstart hitem).1⟩

end Catalogue

end RuleCatalogue

/-! ## Catalogues that were read are regular -/

namespace RuleCatalogue

/-! ## Entries without blank parameters -/

namespace RuleEntry

/-- The entry without its blank parameters. -/
def withoutBlanks (e : RuleEntry) : RuleEntry :=
  { e with
    parameters :=
      ⟨e.parameters.toList.filter (!·.isBlank), e.parameters.increasing.filter _⟩ }

/-- The parameters left are those that are not blank. -/
theorem mem_withoutBlanks {e : RuleEntry} {p : Parameter} :
    p ∈ e.withoutBlanks.parameters ↔ p ∈ e.parameters ∧ p.isBlank = false := by
  refine List.mem_filter.trans ?_
  rw [Bool.not_eq_true']
  rfl

/-- An entry has no blank parameter exactly when leaving them out changes nothing. -/
theorem withoutBlanks_eq_self_iff {e : RuleEntry} :
    e.withoutBlanks = e ↔ ∀ p ∈ e.parameters, p.isBlank = false := by
  constructor
  · intro h p hp
    rw [← h] at hp
    exact (mem_withoutBlanks.mp hp).2
  · intro h
    refine RuleEntry.ext rfl (ParameterSet.ext_mem fun p => ?_) rfl
    rw [mem_withoutBlanks]
    exact ⟨fun hp => hp.1, fun hp => ⟨hp, h p hp⟩⟩

/-- Reading does not notice whether blank parameters are left out: it adds text behind text, and
drops a blank parameter itself. -/
theorem additive_withoutBlanks : Additive withoutBlanks where
  append _ _ := rfl
  addParameter e p := by
    have hname : (e.addParameter p).withoutBlanks.name = (e.withoutBlanks.addParameter p).name := by
      rw [name_addParameter]
      exact name_addParameter e p
    have hdescription : (e.addParameter p).withoutBlanks.rawDescription
        = (e.withoutBlanks.addParameter p).rawDescription := by
      rw [rawDescription_addParameter]
      exact rawDescription_addParameter e p
    refine RuleEntry.ext hname (ParameterSet.ext_mem fun q => ?_) hdescription
    rw [mem_withoutBlanks, mem_addParameter, mem_addParameter, mem_withoutBlanks]
    constructor
    · rintro ⟨hq | hq, hblank⟩
      · exact Or.inl ⟨hq, hblank⟩
      · exact Or.inr hq
    · rintro (hq | ⟨rfl, hblank⟩)
      · exact ⟨Or.inl hq.1, hq.2⟩
      · exact ⟨Or.inr ⟨rfl, hblank⟩, hblank⟩

/-- An entry with the same name and no blank parameters is regular as well. -/
theorem Regular.of_withoutBlanks {e other : RuleEntry} (h : e.Regular) (hname : other.name = e.name)
    (hblanks : other.withoutBlanks = other) : other.Regular where
  named := hname ▸ h.named
  trimmed := hname ▸ h.trimmed
  noBlanks := withoutBlanks_eq_self_iff.mp hblanks

end RuleEntry

namespace OpenRule

variable {rule : OpenRule}

/-- A rule with a regular entry is left alone by the change. -/
theorem mapEntry_withoutBlanks (h : rule.entry.Regular) :
    rule.mapEntry RuleEntry.withoutBlanks = rule := by
  rw [mapEntry, RuleEntry.withoutBlanks_eq_self_iff.mpr h.noBlanks]

/-- **A line keeps an entry regular**, in every mode: its name stays, and `addParameter` drops what
is blank. -/
theorem regular_consume (h : rule.entry.Regular) (full line : List Char) :
    (rule.consume full line).entry.Regular := by
  refine h.of_withoutBlanks (name_consume rule full line) ?_
  have hsame := consume_mapEntry RuleEntry.additive_withoutBlanks rule full line
  rw [mapEntry_withoutBlanks h] at hsame
  exact congrArg OpenRule.entry hsame.symm

/-- Closing the paragraph or the table keeps the entry regular. -/
theorem regular_close (h : rule.entry.Regular) : rule.close.Regular := by
  refine h.of_withoutBlanks (name_close rule) ?_
  have hsame := close_mapEntry RuleEntry.additive_withoutBlanks rule
  rw [mapEntry_withoutBlanks h] at hsame
  exact hsame.symm

end OpenRule

/-! ## Names -/

/-- No letter and no number is blank. -/
theorem Text.isBlank_of_isAlphanumeric {c : Char} (h : isAlphanumeric c) : isBlank c = false := by
  have hall : ∀ n ∈ blankCodes, passes n false alphanumericBoundaries = false := by decide +kernel
  rw [← Bool.not_eq_true]
  intro hblank
  rw [isAlphanumeric, Boundaries.contains, hall _ (mem_blankCodes_of_isBlank hblank)] at h
  exact absurd h (by decide)

/-- A name found in a line is a word, by the way it is found. -/
theorem Session.isRuleName_of_ruleName? {line name : List Char}
    (h : Line.ruleName? line = some name) : Line.isRuleName name := by
  rw [Line.ruleName?] at h
  split at h
  · cases h
  · obtain ⟨text, -, hname⟩ := Option.bind_eq_some_iff.mp h
    simp only at hname
    split at hname
    · next hrule =>
      cases hname
      exact hrule
    · cases hname

/-- A rule that a title names is regular when it is new. -/
theorem Session.regular_of_titleName? {line : List Char} {name : String}
    (h : titleName? line = some name) : RuleEntry.Regular { name } := by
  have hname : Line.isRuleName name.toList := by
    rw [titleName?] at h
    split at h
    · obtain ⟨characters, hcharacters, rfl⟩ := Option.map_eq_some_iff.mp h
      rw [String.toList_ofList]
      exact isRuleName_of_ruleName? hcharacters
    · cases h
  simp only [Line.isRuleName, Bool.and_eq_true, Bool.not_eq_true', List.isEmpty_eq_false_iff,
    List.all_eq_true] at hname
  obtain ⟨⟨⟨hne, hall⟩, -⟩, -⟩ := hname
  refine ⟨fun hempty => hne (congrArg String.toList hempty), ⟨fun c hc => ?_, fun c hc => ?_⟩,
    fun _ hp => nomatch hp⟩
  · exact Text.isBlank_of_isAlphanumeric (hall c (List.mem_of_mem_head? hc))
  · exact Text.isBlank_of_isAlphanumeric (hall c (List.mem_of_mem_getLast? hc))

/-! ## Sessions -/

namespace Session

/-- What was closed is regular, and so is the entry of the rule that is open. -/
structure Regular (session : Session) : Prop where
  finished : session.finished.Regular
  current : ∀ rule ∈ session.current, rule.entry.Regular

/-- Finishing keeps the session regular: the entry handed over was regular while it was open. -/
theorem regular_finish {session : Session} (h : session.Regular) : session.finish.Regular := by
  refine ⟨?_, fun rule hrule => by rw [current_finish] at hrule; cases hrule⟩
  cases hcurrent : session.current with
  | none => rw [finish_of_closed hcurrent]; exact h.finished
  | some rule =>
    rw [finish_of_open hcurrent, ← OpenRule.name_close]
    exact Catalogue.regular_insert h.finished (OpenRule.regular_close (h.current rule hcurrent))

/-- A title opens an entry whose name is a word, new or resumed from a regular one. -/
theorem regular_seekTitle {session : Session} (h : session.Regular) (line : List Char) :
    (session.seekTitle line).1.Regular := by
  cases htitle : titleName? line with
  | none => rw [seekTitle_of_noTitle htitle]; exact h
  | some name =>
    rw [seekTitle_of_title htitle, openRule_fst]
    refine ⟨h.finished, fun rule hrule => ?_⟩
    cases hrule
    show (session.finished.entryOrNew name).Regular
    cases hget : session.finished.get? name with
    | none =>
      rw [Catalogue.entryOrNew, hget]
      exact regular_of_titleName? htitle
    | some e =>
      rw [Catalogue.entryOrNew, hget]
      exact h.finished.entries name e hget

/-- **A line keeps a session regular**, by the lemma on entries for a line inside a rule and by
`regular_seekTitle` for a title. -/
theorem regular_consume {session : Session} (h : session.Regular) (full : List Char) :
    (session.consume full).1.Regular := by
  by_cases hends : endsRule full (Text.trim full)
  · rw [consume_of_endsRule hends, consume_of_closed (current_finish session)]
    exact regular_seekTitle (regular_finish h) _
  · cases hcurrent : session.current with
    | none =>
      rw [consume_of_closed hcurrent]
      exact regular_seekTitle h _
    | some rule =>
      rw [consume_of_open hcurrent hends]
      refine ⟨h.finished, fun next hnext => ?_⟩
      cases hnext
      exact OpenRule.regular_consume (h.current rule hcurrent) _ _

/-- At the beginning there is no entry. -/
theorem regular_start : start.Regular :=
  ⟨Catalogue.regular_empty, fun _ hrule => nomatch hrule⟩

/-- **Every session that lines lead to is regular**, by induction on the lines from `regular_start`.
-/
theorem regular_feed (lines : List (List Char)) : (start.feed lines).Regular :=
  feed_induction regular_start (fun _ full hs => regular_consume hs full) lines

end Session

/-- **The catalogue of a file is regular**, so it meets the hypotheses of the theorems on reading
back what was written, with no condition on the file. -/
theorem Catalogue.regular_ofLines (lines : List String) : (ofLines lines).Regular := by
  rw [Session.ofLines_eq]
  exact (Session.regular_finish (Session.regular_feed _)).finished

end RuleCatalogue
