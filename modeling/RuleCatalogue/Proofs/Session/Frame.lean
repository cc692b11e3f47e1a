import RuleCatalogue.Proofs.Session.Boundary

/-!
# What a line leaves alone

A session holds one entry under a name.  While a rule is open its entry stands for the one that the
rule resumed (`Session.entryOf?`), so that what a line does to the open rule it does to the only
entry of that name.  In these terms a line goes on from the session before it (`Session.GoesOn`):
the entry of the open rule may grow, every other entry stays as it is, and a new name is filed only
where the open rule is closed.

## Main definitions

* `RuleEntry.GrowsInto` is what may happen to the entry of the open rule.
* `Session.entryOf?` is the entry of a session under a name.
* `Session.GoesOn` is what may happen to a session.

## Design notes

A title does two things, one after the other: it closes the rule before it and opens its own.  Each
of the two is a step of its own here, and `GoesOn.trans` puts them together; it asks for a session
without an open rule in between, because only then the entry that the second step may touch is none
of those that the first one left alone.
-/

namespace RuleCatalogue

namespace RuleEntry

/-- **An entry grows into another**: its name stays, its description goes on, and no parameter is
lost. -/
structure GrowsInto (e later : RuleEntry) : Prop where
  name : later.name = e.name
  description : e.rawDescription.toList <+: later.rawDescription.toList
  parameters : ∀ p ∈ e.parameters, p ∈ later.parameters

theorem growsInto_followedBy (e later : RuleEntry) : e.GrowsInto (e.followedBy later) where
  name := rfl
  description := by
    rw [followedBy, String.toList_append]
    exact List.prefix_append _ _
  parameters _ hp := ParameterSet.mem_union.mpr (Or.inl hp)

end RuleEntry

namespace OpenRule

/-- **A line lets the entry of its rule grow**: the description goes on behind what it was, and no
parameter is taken away. -/
theorem growsInto_consume (rule : OpenRule) (full line : List Char) :
    rule.entry.GrowsInto (rule.consume full line).entry := by
  rw [consume_eq_followedBy]
  exact RuleEntry.growsInto_followedBy _ _

theorem growsInto_close (rule : OpenRule) : rule.entry.GrowsInto rule.close := by
  rw [close_eq_followedBy]
  exact RuleEntry.growsInto_followedBy _ _

end OpenRule

namespace Session

/-! ## The entries of a session -/

/-- The name of the rule that is open. -/
def openName? (session : Session) : Option String :=
  session.current.map fun rule => rule.entry.name

/-- **The entry of a session under a name.**  That of the open rule stands for the one that the rule
resumed, since both are one. -/
def entryOf? (session : Session) (name : String) : Option RuleEntry :=
  match session.current with
  | some rule => if rule.entry.name = name then some rule.entry else session.finished.get? name
  | none => session.finished.get? name

variable {session before mid after : Session} {rule : OpenRule} {name : String}

theorem entryOf?_of_closed (h : session.current = none) (name : String) :
    session.entryOf? name = session.finished.get? name := by
  rw [entryOf?, h]

theorem entryOf?_of_open (h : session.current = some rule) (name : String) :
    session.entryOf? name
      = if rule.entry.name = name then some rule.entry else session.finished.get? name := by
  rw [entryOf?, h]

theorem ne_of_openName? (h : session.current = some rule) (hname : session.openName? ≠ some name) :
    rule.entry.name ≠ name := by
  rintro rfl
  exact hname (by rw [openName?, h, Option.map_some])

/-- The entries of a regular session are regular, and each stands under its own name. -/
theorem Regular.of_entryOf? (h : session.Regular) {e : RuleEntry}
    (hentry : session.entryOf? name = some e) : e.name = name ∧ e.Regular := by
  have filed (hget : session.finished.get? name = some e) : e.name = name ∧ e.Regular :=
    ⟨h.finished.filed name e hget, h.finished.entries name e hget⟩
  cases hcurrent : session.current with
  | none =>
    rw [entryOf?_of_closed hcurrent] at hentry
    exact filed hentry
  | some rule =>
    rw [entryOf?_of_open hcurrent] at hentry
    split at hentry
    · next hname =>
      cases hentry
      exact ⟨hname, h.current rule hcurrent⟩
    · exact filed hentry

/-! ## Steps -/

/-- **A session goes on from another.**  Entries of other names than that of the open rule stay as
they are, and what is new among them is empty; the entry of the open rule grows; and the names that
are filed keep their order, with that of the open rule at most behind them. -/
structure GoesOn (before after : Session) : Prop where
  others : ∀ name, before.openName? ≠ some name →
    after.entryOf? name = before.entryOf? name
      ∨ before.entryOf? name = none ∧ after.entryOf? name = some { name }
  grown : ∀ rule, before.current = some rule →
    ∃ e, after.entryOf? rule.entry.name = some e ∧ rule.entry.GrowsInto e
  names : after.finished.keys = before.finished.keys
    ∨ ∃ name, before.openName? = some name ∧ name ∉ before.finished.keys
      ∧ after.finished.keys = before.finished.keys ++ [name]

/-- One step behind another, where no rule is open in between. -/
theorem GoesOn.trans (h : before.GoesOn mid) (hclosed : mid.current = none)
    (h' : mid.GoesOn after) : before.GoesOn after := by
  -- No rule is open in between, so that no entry is exempt from what the second step leaves alone.
  have hother (name : String) : mid.openName? ≠ some name := by
    rw [openName?, hclosed]
    exact nofun
  have hkeys : after.finished.keys = mid.finished.keys := by
    refine h'.names.resolve_right ?_
    rintro ⟨name, hname, -⟩
    exact hother name hname
  refine ⟨fun name hname => ?_, fun rule hrule => ?_, ?_⟩
  · rcases h.others name hname with hmid | ⟨hnone, hmid⟩
    · rw [← hmid]
      exact h'.others name (hother name)
    · rcases h'.others name (hother name) with hafter | ⟨hmissing, -⟩
      · exact Or.inr ⟨hnone, hafter.trans hmid⟩
      · exact nomatch hmid.symm.trans hmissing
  · obtain ⟨e, hmid, hgrown⟩ := h.grown rule hrule
    refine ⟨e, ?_, hgrown⟩
    rcases h'.others rule.entry.name (hother _) with hafter | ⟨hmissing, -⟩
    · exact hafter.trans hmid
    · exact nomatch hmid.symm.trans hmissing
  · rw [hkeys]
    exact h.names

/-- **Closing the open rule** files its entry, grown by what was still to be added: the end of a
paragraph, or the parameter in progress. -/
theorem goesOn_finish (h : session.current = some rule) : session.GoesOn session.finish := by
  have hentry (name : String) : session.finish.entryOf? name
      = if rule.entry.name = name then some rule.close else session.finished.get? name := by
    rw [entryOf?_of_closed (current_finish session), finish_of_open h, Table.get?_insert]
  refine ⟨fun name hname => Or.inl ?_, fun other hother => ?_, ?_⟩
  · have hne := ne_of_openName? h hname
    rw [hentry, entryOf?_of_open h, if_neg hne, if_neg hne]
  · cases h.symm.trans hother
    exact ⟨rule.close, by rw [hentry, if_pos rfl], rule.growsInto_close⟩
  · rw [finish_of_open h, Table.keys_insert]
    split
    · exact Or.inl rfl
    · next hnew => exact Or.inr ⟨rule.entry.name, by rw [openName?, h, Option.map_some], hnew, rfl⟩

/-- **A title opens the entry that is filed under its name**, or an empty one, and changes none.
`hfiled` makes the entry opened the one of that name. -/
theorem goesOn_seekTitle (h : session.current = none) (hfiled : session.Filed)
    (line : List Char) : session.GoesOn (session.seekTitle line).1 := by
  refine ⟨fun name _ => ?_, fun rule hrule => ?_,
    Or.inl (congrArg Table.keys (finished_seekTitle session line))⟩
  rotate_left
  · exact nomatch h.symm.trans hrule
  cases htitle : titleName? line with
  | none => exact Or.inl (by rw [seekTitle_of_noTitle htitle])
  | some opened =>
    have hopened : (session.finished.entryOrNew opened).name = opened :=
      Catalogue.name_entryOrNew hfiled opened
    rw [seekTitle_of_title htitle, openRule_fst, entryOf?_of_open rfl, entryOf?_of_closed h,
      hopened]
    split
    · next hname =>
      subst hname
      rw [Catalogue.entryOrNew]
      cases session.finished.get? opened with
      | none => exact Or.inr ⟨rfl, rfl⟩
      | some e => exact Or.inl rfl
    · exact Or.inl rfl

/-- **A line inside a rule** touches its entry alone, and files nothing. -/
theorem goesOn_inRule (h : session.current = some rule) (full line : List Char) :
    session.GoesOn { session with current := some (rule.consume full line) } := by
  refine ⟨fun name hname => Or.inl ?_, fun other hother => ?_, Or.inl rfl⟩
  · have hne := ne_of_openName? h hname
    rw [entryOf?_of_open rfl, entryOf?_of_open h, OpenRule.name_consume, if_neg hne, if_neg hne]
  · cases h.symm.trans hother
    refine ⟨(rule.consume full line).entry, ?_, rule.growsInto_consume full line⟩
    rw [entryOf?_of_open rfl, OpenRule.name_consume, if_pos rfl]

/-- **A line goes on from the session before it**: the three lemmas above for the three things that
it can do. -/
theorem goesOn_consume (hfiled : session.Filed) (full : List Char) :
    session.GoesOn (session.consume full).1 := by
  cases hcurrent : session.current with
  | none =>
    rw [consume_of_closed hcurrent]
    exact goesOn_seekTitle hcurrent hfiled _
  | some rule =>
    by_cases hends : endsRule full (Text.trim full)
    · have hclosed : session.finish.current = none := current_finish session
      rw [consume_of_endsRule hends, consume_of_closed hclosed]
      exact (goesOn_finish hcurrent).trans hclosed
        (goesOn_seekTitle hclosed (filed_finish hfiled) _)
    · rw [consume_of_open hcurrent hends]
      exact goesOn_inRule hcurrent full _

/-- **A line touches at most the rule that was open before it, and only by growing it.**  After any
lines, the next line leaves every entry as it is but that of the open rule, whose description goes
on and whose parameters stay; it adds at most the name of that rule to those that are filed, and
only if it closes the rule; and no entry has a blank parameter or one parameter twice. -/
theorem consume_frame (lines : List (List Char)) (full : List Char) :
    let before := start.feed lines
    let after := (before.consume full).1
    before.GoesOn after
      ∧ (¬ endsRule full (Text.trim full) → after.finished.keys = before.finished.keys)
      ∧ ∀ name e, after.entryOf? name = some e →
          e.name = name ∧ (∀ p ∈ e.parameters, p.isBlank = false) ∧ e.parameters.toList.Nodup := by
  intro before after
  have hregular : before.Regular := regular_feed lines
  refine ⟨goesOn_consume hregular.finished.filed full, fun hends => ?_, fun name e hentry => ?_⟩
  · rw [show after.finished = before.finished by rw [finished_consume, if_neg hends]]
  · obtain ⟨hname, he⟩ := (regular_consume hregular full).of_entryOf? hentry
    exact ⟨hname, he.noBlanks, e.parameters.nodup_toList⟩

end Session

end RuleCatalogue
