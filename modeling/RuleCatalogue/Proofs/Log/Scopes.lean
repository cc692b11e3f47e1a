import Mathlib.Data.List.Nodup
import RuleCatalogue.Log.Logbook
import RuleCatalogue.Proofs.Table
import RuleCatalogue.Proofs.Text.Substring

/-!
# Scopes of bound fields

Scopes are opened and left one inside another, also where the work inside breaks off.  A scope puts
aside no more than what it hides; that this gives the whole back when it is left comes from the
scopes inside, which have given back theirs.  So a record carries for each name the value of the
innermost scope around it that gives one.

## Main definitions

* `Work` is work that is done under scopes and may break off, and `Work.perform` does it on a host.
* `Work.trace` lists what happens meanwhile: the records that are made, each with the scopes around
  it, and the scopes that are left.
* `Correlation.Restored` and `Correlation.Carries` say what is bound.

## Main statements

* `Correlation.Carries.enter` and `Correlation.Carries.restored_leave`: what opening and leaving a
  scope does.
* `Work.perform_eq`: doing work writes the records of its trace.
* `Work.perform_disciplined`: what records carry, and what is bound behind each scope.
-/

namespace RuleCatalogue

namespace Fields

variable {α : Type}

/-- Fields whose names are not repeated are the same up to their order if they have the same value
at each name. -/
theorem perm_iff_get? {first second : Fields α} (hfirst : (keys first).Nodup)
    (hsecond : (keys second).Nodup) :
    first.Perm second ↔ ∀ name, get? name first = get? name second := by
  rw [List.perm_ext_iff_of_nodup (List.Nodup.of_map _ hfirst) (List.Nodup.of_map _ hsecond)]
  constructor
  · intro h name
    refine Option.ext fun value => ?_
    rw [get?_eq_some_iff hfirst, get?_eq_some_iff hsecond]
    exact h (name, value)
  · rintro h ⟨name, value⟩
    rw [← get?_eq_some_iff hfirst, ← get?_eq_some_iff hsecond, h name]

end Fields

namespace Correlation

/-! ## Binding -/

section Binding

variable {bound more : Fields String} {names : List String} {name : String}

/-- Binding more names binds none of them twice. -/
theorem nodup_keys_bind (h : bound.keys.Nodup) (more : Fields String) :
    (bind bound more).keys.Nodup :=
  Fields.nodup_keys_insertAll h more

/-- The names bound later hide those bound before. -/
theorem get?_bind (hmore : more.keys.Nodup) (bound : Fields String) (name : String) :
    (bind bound more).get? name = (more.get? name).or (bound.get? name) :=
  Fields.get?_insertAll hmore bound name

/-- Unbinding leaves the other names as they were, once each. -/
theorem nodup_keys_unbind (h : bound.keys.Nodup) (names : List String) :
    (unbind bound names).keys.Nodup := by
  induction names generalizing bound with
  | nil => exact h
  | cons first rest ih => exact ih (Fields.nodup_keys_filter _ h)

/-- A name that is unbound has nothing, and any other keeps what it has. -/
theorem get?_unbind (bound : Fields String) (names : List String) (name : String) :
    (unbind bound names).get? name = if name ∈ names then none else bound.get? name := by
  induction names generalizing bound with
  | nil => simp [unbind]
  | cons first rest ih =>
    show (unbind (bound.erase first) rest).get? name = _
    rw [ih, Fields.get?_erase]
    by_cases hfirst : name = first <;> by_cases hrest : name ∈ rest <;> simp [hfirst, hrest]

end Binding

/-! ## What a scope gives -/

/-- The value that is bound for the one that is given: it is trimmed, and a blank one is none. -/
def shownValue? (value : Option String) : Option String :=
  value.bind fun s => if Text.isBlankText s then none else some (Text.trimmed s)

/-- **The value of a name in the innermost scope that gives one.** -/
def innermost? (enclosing : List (Table (Option String))) (name : String) : Option String :=
  enclosing.findSome? fun fields => (fields.get? name).bind shownValue?

section Scopes

variable {fields : Table (Option String)} {enclosing : List (Table (Option String))}
  {c inner : Correlation}

/-- The fields of a scope that have a value to show, in their order. -/
theorem given_eq (fields : Fields (Option String)) :
    given fields = fields.filterMap fun field => (shownValue? field.2).map (field.1, ·) := by
  rw [given]
  refine List.filterMap_congr fun field _ => ?_
  obtain ⟨name, value⟩ := field
  cases value with
  | none => rfl
  | some s =>
    simp only [Option.map_some, shownValue?, Option.bind_some, Text.isEmpty_trimmed]
    split <;> rfl

/-- A name has a value in the scope if it was given one that shows. -/
theorem get?_given (fields : Table (Option String)) (name : String) :
    (given fields.fields).get? name = (fields.get? name).bind shownValue? := by
  rw [given_eq]
  exact Fields.get?_filterMap (fun _ value => shownValue? value) fields.nodup name

/-- The names of a scope differ, being those of a table. -/
theorem nodup_keys_given (fields : Table (Option String)) :
    (given fields.fields).keys.Nodup := by
  rw [given_eq]
  exact fields.nodup.sublist
    (Fields.keys_filterMap_sublist (fun _ value => shownValue? value) fields.fields)

/-- **A state is given back**: the same scopes are open, and the same fields are bound. -/
structure Restored (before after : Correlation) : Prop where
  scopes : after.scopes = before.scopes
  bound : after.bound.Perm before.bound

/-- A state that nothing was done to is given back. -/
theorem Restored.refl (c : Correlation) : Restored c c :=
  ⟨rfl, .refl _⟩

/-- Giving back carries over: work after work gives back what the first found. -/
theorem Restored.trans {first second third : Correlation} (h : Restored first second)
    (h' : Restored second third) : Restored first third :=
  ⟨h'.scopes.trans h.scopes, h'.bound.trans h.bound⟩

/-- Nothing bound and no scope open is given back as such, with no order of fields left to differ
in. -/
theorem Restored.eq_empty (h : Restored {} c) : c = {} := by
  obtain ⟨bound, scopes⟩ := c
  obtain ⟨hscopes, hbound⟩ := h
  cases hscopes
  cases List.perm_nil.mp hbound
  rfl

/-- **What is bound inside scopes**: each name once, with the value of the innermost scope that
gives it one. -/
structure Carries (bound : Fields String) (enclosing : List (Table (Option String))) : Prop where
  nodup : bound.keys.Nodup
  get? : ∀ name, bound.get? name = innermost? enclosing name

/-- Outside all scopes nothing is bound. -/
theorem carries_nil : Carries [] [] :=
  ⟨List.nodup_nil, fun _ => rfl⟩

/-- A state given back carries what it carried: the order of the bound fields does not matter to it.
-/
theorem Carries.restored (h : Carries c.bound enclosing) (hrestored : Restored c inner) :
    Carries inner.bound enclosing := by
  have hnodup : inner.bound.keys.Nodup :=
    (hrestored.bound.map Prod.fst).nodup_iff.mpr h.nodup
  refine ⟨hnodup, fun name => ?_⟩
  rw [← h.get?]
  exact (Fields.perm_iff_get? hnodup h.nodup).mp hrestored.bound name

/-- **Opening a scope** keeps what is bound that of the scopes around: the new scope is innermost,
and its names hide those of the others. -/
theorem Carries.enter (h : Carries c.bound enclosing) (fields : Table (Option String)) :
    Carries (c.enter fields.fields).bound (fields :: enclosing) := by
  refine ⟨nodup_keys_bind h.nodup _, fun name => ?_⟩
  show (bind c.bound (given fields.fields)).get? name = _
  rw [get?_bind (nodup_keys_given fields), get?_given, h.get?, innermost?, innermost?,
    List.findSome?_cons]
  cases (fields.get? name).bind shownValue? <;> rfl

/-- Leaving the innermost scope takes its names away and puts back what it hid. -/
theorem leave_eq {scope : Scope} {outer : List Scope} (h : inner.scopes = scope :: outer) :
    inner.leave
      = { bound := bind (unbind inner.bound scope.names) scope.hidden, scopes := outer } := by
  rw [leave, h]

/-- **Leaving a scope** whose work has given back what it found: what the scope hid is there again,
and what it added is gone.  The work may have bound and unbound the same names in scopes of its own,
so `hinner` is needed. -/
theorem Carries.restored_leave (h : Carries c.bound enclosing) {fields : Table (Option String)}
    (hinner : Restored (c.enter fields.fields) inner) : Restored c inner.leave := by
  have hcarries := (h.enter fields).restored hinner
  have hhidden := Fields.nodup_keys_filter (fun field => (given fields.fields).has field.1) h.nodup
  have hfilter (name : String) :=
    Fields.get?_filter (fun name => (given fields.fields).has name) name c.bound
  rw [leave_eq hinner.scopes]
  refine ⟨rfl, ?_⟩
  rw [Fields.perm_iff_get? (nodup_keys_bind (nodup_keys_unbind hcarries.nodup _) _) h.nodup]
  intro name
  rw [get?_bind hhidden, hfilter, get?_unbind]
  cases hgiven : (given fields.fields).get? name with
  | none =>
    have hsame : inner.bound.get? name = c.bound.get? name := by
      rw [(Fields.perm_iff_get? hcarries.nodup (h.enter fields).nodup).mp hinner.bound name]
      show (bind c.bound (given fields.fields)).get? name = _
      rw [get?_bind (nodup_keys_given fields), hgiven, Option.none_or]
    rw [Fields.has, hgiven, if_neg (Fields.get?_eq_none_iff.mp hgiven), hsame]
    rfl
  | some value =>
    rw [Fields.has, hgiven, if_pos (Fields.mem_keys_of_get? hgiven), Option.or_none]
    rfl

end Scopes

end Correlation

/-! ## Calls -/

namespace Logbook

variable {m : Type → Type} [Monad m] [Host m]

/-- **The record that a call makes**, if its logger takes it. -/
def record (book : Logbook) (logger : String) (severity : Int) (message : String)
    (extras : Fields Value) : Except RecordFault (Option Record) :=
  if book.accepts logger severity then
    if Decimal.Short severity then
      match Record.clash? extras with
      | some name => .error (.clash name)
      | none => .ok <| some
          { severity, logger := loggerName logger, message, correlation := book.correlation.bound
            extras }
    else .error (.oversizedSeverity ⟨⟩)
  else .ok none

/-- **The record that an event makes**, if a log takes events. -/
def eventRecord (book : Logbook) (logger : String) (severity : Int) (name : String)
    (fields : Fields Value) : Except RecordFault (Option Record) :=
  if book.takesEvents then
    book.record logger severity name (fields.filter fun field => !steeringNames.contains field.1)
  else .ok none

/-- Delivers what a call makes. -/
def send (book : Logbook) (made : Except RecordFault (Option Record)) (values : List Value) :
    m (Except RecordFault Unit) :=
  match made with
  | .error fault => return .error fault
  | .ok none => return .ok ()
  | .ok (some record) => do
      book.deliver record values
      return .ok ()

/-- Delivers records one after another. -/
def deliverAll (book : Logbook) (deliveries : List (Record × List Value)) : m Unit :=
  deliveries.forM fun delivery => book.deliver delivery.1 delivery.2

/-- Deliveries are made one after another. -/
theorem deliverAll_append [LawfulMonad m] (book : Logbook)
    (first second : List (Record × List Value)) :
    (book.deliverAll (first ++ second) : m Unit) = (do
      book.deliverAll first
      book.deliverAll second) :=
  List.forM_append

/-- A single delivery is that delivery. -/
theorem deliverAll_singleton [LawfulMonad m] (book : Logbook)
    (delivery : Record × List Value) :
    (book.deliverAll [delivery] : m Unit) = book.deliver delivery.1 delivery.2 := by
  simp [deliverAll]

/-- Logging a message is making its record and sending it; the record carries what is bound at the
call. -/
theorem log_eq (book : Logbook) (logger : String) (severity : Int) (message : String)
    (values : List Value) (extras : Fields Value) :
    (book.log logger severity message values extras : m _)
      = book.send (book.record logger severity message extras) values := by
  unfold log record
  split
  · split
    · cases Record.clash? extras <;> rfl
    · rfl
  · rfl

/-- Logging an event is making its record and sending it without values to format. -/
theorem event_eq (book : Logbook) (logger : String) (severity : Int) (name : String)
    (fields : Fields Value) :
    (book.event logger severity name fields : m _)
      = book.send (book.eventRecord logger severity name fields) [] := by
  unfold event eventRecord
  split
  · exact log_eq book logger severity name [] _
  · rfl

end Logbook

/-! ## Work -/

/-- **Why work breaks off.** -/
inductive Interruption
  | raised (reason : String)
  | unmade (fault : RecordFault)
deriving DecidableEq, Repr

/-- **Work that is done under scopes.** -/
inductive Work
  | nothing
  | breakOff (reason : String)
  | log (logger : String) (severity : Int) (message : String) (values : List Value)
      (extras : Fields Value)
  | event (logger : String) (severity : Int) (name : String) (fields : Fields Value)
  | scope (fields : Table (Option String)) (body : Work)
  | followedBy (first second : Work)
  /-- The second is done where the first breaks off. -/
  | orElse (first second : Work)

/-- **Something that happens while work is done.** -/
inductive Happening
  /-- A record is made inside these scopes, the innermost first. -/
  | made (enclosing : List (Table (Option String))) (record : Record) (values : List Value)
  /-- A scope is left that was opened in the first state, and the second is left behind. -/
  | left (before after : Correlation)

/-- The record that is made, if one is, with the values of its message. -/
def Happening.delivery? : Happening → Option (Record × List Value)
  | .made _ record values => some (record, values)
  | .left _ _ => none

/-- **A record carries what the scopes around it give, and a scope that is left gives back what it
found.** -/
def Happening.Disciplined : Happening → Prop
  | .made enclosing record _ => Correlation.Carries record.correlation enclosing
  | .left before after => Correlation.Restored before after

/-- What doing work comes to. -/
structure Trace where
  result : Except Interruption Unit
  correlation : Correlation
  happenings : List Happening

namespace Trace

/-- The trace of a call. -/
def ofCall (enclosing : List (Table (Option String))) (made : Except RecordFault (Option Record))
    (values : List Value) (c : Correlation) : Trace where
  result := (made.map fun _ => ()).mapError .unmade
  correlation := c
  happenings :=
    match made with
    | .ok (some record) => [.made enclosing record values]
    | _ => []

/-- A trace behind another one. -/
def followedBy (before later : Trace) : Trace :=
  { later with happenings := before.happenings ++ later.happenings }

/-- The records of a trace, each with the values of its message. -/
def deliveries (trace : Trace) : List (Record × List Value) :=
  trace.happenings.filterMap Happening.delivery?

/-- What two pieces of work deliver is what the first delivers and then the second. -/
theorem deliveries_followedBy (before later : Trace) :
    (before.followedBy later).deliveries = before.deliveries ++ later.deliveries :=
  List.filterMap_append

end Trace

namespace Work

variable {m : Type → Type} [Monad m] [Host m]

/-- **Does work on a host**, and tells whether it broke off.  A scope is left in both cases. -/
def perform : Work → Logbook → m (Except Interruption Unit × Logbook)
  | .nothing, book => return (.ok (), book)
  | .breakOff reason, book => return (.error (.raised reason), book)
  | .log logger severity message values extras, book => do
      let result ← book.log logger severity message values extras
      return (result.mapError .unmade, book)
  | .event logger severity name fields, book => do
      let result ← book.event logger severity name fields
      return (result.mapError .unmade, book)
  | .scope fields body, book => do
      let (result, inner) ←
        perform body { book with correlation := book.correlation.enter fields.fields }
      return (result, { inner with correlation := inner.correlation.leave })
  | .followedBy first second, book => do
      let (result, after) ← perform first book
      match result with
      | .ok () => perform second after
      | .error interruption => return (.error interruption, after)
  | .orElse first second, book => do
      let (result, after) ← perform first book
      match result with
      | .ok () => return (.ok (), after)
      | .error _ => perform second after

/-- **What happens while work is done** inside scopes, with the logs of a book, from what is
bound. -/
def trace (book : Logbook) : List (Table (Option String)) → Work → Correlation → Trace
  | _, .nothing, c => ⟨.ok (), c, []⟩
  | _, .breakOff reason, c => ⟨.error (.raised reason), c, []⟩
  | enclosing, .log logger severity message values extras, c =>
      .ofCall enclosing ({ book with correlation := c }.record logger severity message extras)
        values c
  | enclosing, .event logger severity name fields, c =>
      .ofCall enclosing ({ book with correlation := c }.eventRecord logger severity name fields)
        [] c
  | enclosing, .scope fields body, c =>
      let inner := trace book (fields :: enclosing) body (c.enter fields.fields)
      ⟨inner.result, inner.correlation.leave,
        inner.happenings ++ [.left c inner.correlation.leave]⟩
  | enclosing, .followedBy first second, c =>
      let before := trace book enclosing first c
      match before.result with
      | .ok () => before.followedBy (trace book enclosing second before.correlation)
      | .error _ => before
  | enclosing, .orElse first second, c =>
      let before := trace book enclosing first c
      match before.result with
      | .ok () => before
      | .error _ => before.followedBy (trace book enclosing second before.correlation)

/-- A call writes the record of its trace. -/
theorem send_eq [LawfulMonad m] (book : Logbook) (enclosing : List (Table (Option String)))
    (made : Except RecordFault (Option Record)) (values : List Value) (c : Correlation) :
    (book.send made values : m _) = (do
      book.deliverAll (Trace.ofCall enclosing made values c).deliveries
      return made.map fun _ => ()) := by
  rcases made with fault | _ | record
  · simp [Logbook.send, Logbook.deliverAll, Trace.ofCall, Trace.deliveries, Except.map]
  · simp [Logbook.send, Logbook.deliverAll, Trace.ofCall, Trace.deliveries, Except.map]
  · have hdeliveries : (Trace.ofCall enclosing (.ok (some record)) values c).deliveries
        = [(record, values)] := rfl
    rw [Logbook.send, hdeliveries, Logbook.deliverAll_singleton, Except.map]

/-- **Doing work writes the records of its trace**: `Work.perform` does them one by one with the log
between, and `trace` lists them at once.  The claims below are about the trace. -/
theorem perform_eq [LawfulMonad m] (book : Logbook) (enclosing : List (Table (Option String)))
    (work : Work) (c : Correlation) :
    (work.perform { book with correlation := c } : m _) = (do
      book.deliverAll (work.trace book enclosing c).deliveries
      return ((work.trace book enclosing c).result,
        { book with correlation := (work.trace book enclosing c).correlation })) := by
  induction work generalizing enclosing c with
  | nothing => simp [perform, trace, Trace.deliveries, Logbook.deliverAll]
  | breakOff reason => simp [perform, trace, Trace.deliveries, Logbook.deliverAll]
  | log logger severity message values extras =>
    rw [perform, Logbook.log_eq, send_eq _ enclosing _ _ c]
    simp only [bind_assoc, pure_bind]
    rfl
  | event logger severity name fields =>
    rw [perform, Logbook.event_eq, send_eq _ enclosing _ _ c]
    simp only [bind_assoc, pure_bind]
    rfl
  | scope fields body ih =>
    have hbody := ih (fields :: enclosing) (c.enter fields.fields)
    have hdeliveries : ((Work.scope fields body).trace book enclosing c).deliveries
        = (body.trace book (fields :: enclosing) (c.enter fields.fields)).deliveries := by
      rw [trace, Trace.deliveries, List.filterMap_append]
      exact List.append_nil _
    rw [perform, hdeliveries]
    simp only [hbody, bind_assoc, pure_bind]
    rfl
  | followedBy first second hfirst hsecond =>
    rw [perform, trace]
    simp only [hfirst enclosing c, bind_assoc, pure_bind]
    cases hresult : (first.trace book enclosing c).result with
    | ok _ =>
      simp only [hsecond enclosing, Trace.deliveries_followedBy, Logbook.deliverAll_append,
        bind_assoc]
      rfl
    | error interruption => simp only [hresult]
  | orElse first second hfirst hsecond =>
    rw [perform, trace]
    simp only [hfirst enclosing c, bind_assoc, pure_bind]
    cases hresult : (first.trace book enclosing c).result with
    | ok _ => simp only [hresult]
    | error interruption =>
      simp only [hsecond enclosing, Trace.deliveries_followedBy, Logbook.deliverAll_append,
        bind_assoc]
      rfl

/-! ## Discipline -/

section Discipline

variable {book : Logbook} {enclosing : List (Table (Option String))} {c : Correlation}
  {made : Except RecordFault (Option Record)}

/-- A call makes a record of what is bound. -/
theorem correlation_of_record {logger message : String} {severity : Int} {extras : Fields Value}
    {record : Record} (h : book.record logger severity message extras = .ok (some record)) :
    record.correlation = book.correlation.bound := by
  unfold Logbook.record at h
  split at h
  · split at h
    · split at h
      · cases h
      · cases h
        rfl
    · cases h
  · cases h

/-- The record of an event carries what was bound when it was made. -/
theorem correlation_of_eventRecord {logger name : String} {severity : Int} {fields : Fields Value}
    {record : Record} (h : book.eventRecord logger severity name fields = .ok (some record)) :
    record.correlation = book.correlation.bound := by
  unfold Logbook.eventRecord at h
  split at h
  · exact correlation_of_record h
  · cases h

/-- **A trace is disciplined** if what was bound is bound again in the end, and all that happens
is disciplined. -/
structure Disciplined (c : Correlation) (trace : Trace) : Prop where
  restored : Correlation.Restored c trace.correlation
  happenings : ∀ happening ∈ trace.happenings, happening.Disciplined

/-- **A call to the log is disciplined** when the record it makes carries what is bound; it opens no
scope and closes none. -/
theorem disciplined_ofCall (h : Correlation.Carries c.bound enclosing)
    (hmade : ∀ record, made = .ok (some record) → record.correlation = c.bound)
    (values : List Value) : Disciplined c (.ofCall enclosing made values c) := by
  refine ⟨.refl c, fun happening hmem => ?_⟩
  rcases made with fault | _ | record
  · cases hmem
  · cases hmem
  · obtain rfl := List.mem_singleton.mp hmem
    show Correlation.Carries record.correlation enclosing
    rwa [hmade record rfl]

/-- Work after work is disciplined when both are, the second from the state that the first left. -/
theorem Disciplined.followedBy {before later : Trace} (h : Disciplined c before)
    (h' : Disciplined before.correlation later) : Disciplined c (before.followedBy later) := by
  refine ⟨h.restored.trans h'.restored, fun happening hmem => ?_⟩
  rcases List.mem_append.mp hmem with hbefore | hlater
  · exact h.happenings happening hbefore
  · exact h'.happenings happening hlater

/-- **All work is disciplined**, by induction on it: a scope inside a scope is one more name on the
stack, and a break leaves through every scope around it. -/
theorem disciplined_trace (work : Work) (h : Correlation.Carries c.bound enclosing) :
    Disciplined c (work.trace book enclosing c) := by
  induction work generalizing enclosing c with
  | nothing => exact ⟨.refl c, nofun⟩
  | breakOff reason => exact ⟨.refl c, nofun⟩
  | log logger severity message values extras =>
    exact disciplined_ofCall h (fun record hrecord => correlation_of_record hrecord) values
  | event logger severity name fields =>
    exact disciplined_ofCall h (fun record hrecord => correlation_of_eventRecord hrecord) []
  | scope fields body ih =>
    have hbody := ih (h.enter fields)
    have hleft := h.restored_leave hbody.restored
    refine ⟨hleft, fun happening hmem => ?_⟩
    rcases List.mem_append.mp hmem with hinner | hlast
    · exact hbody.happenings happening hinner
    · obtain rfl := List.mem_singleton.mp hlast
      exact hleft
  | followedBy first second hfirst hsecond =>
    have hbefore := hfirst h
    rw [trace]
    split
    · exact hbefore.followedBy (hsecond (h.restored hbefore.restored))
    · exact hbefore
  | orElse first second hfirst hsecond =>
    have hbefore := hfirst h
    rw [trace]
    split
    · exact hbefore
    · exact hbefore.followedBy (hsecond (h.restored hbefore.restored))

end Discipline

/-- **Scopes follow the discipline of a stack.**  Work that begins with nothing bound writes its
records and ends with nothing bound; each record carries, once for each name, the value of the
innermost scope around it that gives one and no other names; and behind each scope that is left, be
it by a break, the same scopes are open and the same fields bound as before it. -/
theorem perform_disciplined (work : Work) (book : Logbook) :
    ((work.perform { book with correlation := {} } : StateM Machine _) = do
        book.deliverAll (work.trace book [] {}).deliveries
        return ((work.trace book [] {}).result, { book with correlation := {} }))
      ∧ (∀ enclosing record values,
        .made enclosing record values ∈ (work.trace book [] {}).happenings →
          record.correlation.keys.Nodup
            ∧ ∀ name, record.correlation.get? name = Correlation.innermost? enclosing name)
      ∧ ∀ before after, .left before after ∈ (work.trace book [] {}).happenings →
        after.scopes = before.scopes ∧ after.bound.Perm before.bound := by
  have hdisciplined : Disciplined {} (work.trace book [] {}) :=
    disciplined_trace work Correlation.carries_nil
  have hend := hdisciplined.restored.eq_empty
  refine ⟨?_, fun enclosing record values hmem => ?_, fun before after hmem => ?_⟩
  · rw [perform_eq book [] work {}, hend]
  · have hcarries : Correlation.Carries record.correlation enclosing :=
      hdisciplined.happenings _ hmem
    exact ⟨hcarries.nodup, hcarries.get?⟩
  · have hleft : Correlation.Restored before after := hdisciplined.happenings _ hmem
    exact ⟨hleft.scopes, hleft.bound⟩

end Work

end RuleCatalogue
