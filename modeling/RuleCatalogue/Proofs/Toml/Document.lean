import RuleCatalogue.Proofs.Fallible
import RuleCatalogue.Proofs.Payload
import RuleCatalogue.Proofs.Text.Substring
import RuleCatalogue.Proofs.Toml.Value
import RuleCatalogue.Proofs.Value
import RuleCatalogue.Toml.Writer

/-!
# TOML documents read back

A document is read line by line.  After the line with the version, every rule opens a new table in
the list of rules and fills it with three fields: this is followed step by step, the root table
being the version and the rules read so far (`rulesRoot`).

A value is written unless one of its parts is refused, and then the error is that part's
(`fallible_write`).  What is written, behind a name and an equals sign, is a document that holds the
value under that name and nothing else (`parse_assignment`).  Together: on values whose tables are
named by texts and whose integers are short enough, the writer refuses exactly those with an
unsupported part, and the reader inverts it on all others (`parse_write`).

## Design notes

A header opens a list that no value has frozen; only the parameters of a rule are frozen, under the
header of that rule, and the next header lifts this.  `Document.Between` is what holds before every
header, `Document.Within` what holds inside a rule.

The writer sorts the names of all tables first, so what is read back has them in order; that it is
the same value nevertheless is said by `Value.Same`.  Which part is refused does not depend on the
order, but which of several is refused first does, so the error is only said to be that of some
part.
-/

/-! ## TOML reads back its documents -/

namespace RuleCatalogue.Toml

/-! ## Lines -/

/-- The text of lines, each with its end. -/
def linesChars (lines : List String) : List Char :=
  lines.flatMap fun line => line.toList ++ ['\n']

theorem linesChars_cons (line : String) (lines : List String) :
    linesChars (line :: lines) = line.toList ++ '\n' :: linesChars lines := by
  rw [linesChars, List.flatMap_cons, List.append_assoc]
  rfl

theorem linesChars_flatMap {α : Type} (lines : α → List String) (items : List α) :
    linesChars (items.flatMap lines) = items.flatMap fun item => linesChars (lines item) :=
  List.flatMap_assoc ..

theorem toList_ofCatalogue (c : Catalogue) :
    (ofCatalogue c).toList
      = linesChars
          (("version = " ++ toString payloadVersion) :: c.sortedEntries.flatMap ruleLines) := by
  simp [ofCatalogue, linesChars, String.toList_join, List.flatMap_map]

/-- **A bare name**: not empty, and of characters that need no quotes. -/
structure Bare (key : String) : Prop where
  nonempty : key.toList ≠ []
  all : key.toList.all isBareNameChar

/-- A bare name is read to its end. -/
theorem namePart?_bare {key : String} (h : Bare key) {rest : List Char}
    (hrest : ∀ c ∈ rest.head?, isBareNameChar c = false) :
    namePart? (key.toList ++ rest) = some (key, rest) := by
  have htake : (key.toList ++ rest).takeWhile isBareNameChar = key.toList := by
    rw [List.takeWhile_append_of_pos (List.all_eq_true.mp h.all)]
    cases rest with
    | nil => exact List.append_nil _
    | cons c rest => rw [List.takeWhile_cons_of_neg (by simp [hrest c rfl]), List.append_nil]
  have hnonempty : key.toList.isEmpty = false := by simpa using h.nonempty
  obtain ⟨c, more, hcons⟩ := List.exists_cons_of_ne_nil h.nonempty
  have hc : isBareNameChar c := List.all_eq_true.mp h.all c (hcons ▸ List.mem_cons_self)
  unfold namePart?
  split
  · next heq =>
    rw [hcons] at heq
    exact absurd hc (by rw [(List.cons.inj heq).1]; decide)
  · next heq =>
    rw [hcons] at heq
    exact absurd hc (by rw [(List.cons.inj heq).1]; decide)
  · simp [htake, hnonempty]

namespace Document

/-- A statement that reaches the end of its line is followed by those of the other lines. -/
theorem statements_line {d next : Document} {line more : List Char} {steps : Nat}
    (h : d.statement steps (skipSpace (line ++ '\n' :: more)) = .ok (next, '\n' :: more)) :
    statements (steps + 1) d (line ++ '\n' :: more) = statements steps next more := by
  rw [statements, h]
  rfl

/-- A statement that reaches the end of the text is the last one. -/
theorem statements_last {d next : Document} {line : List Char} {steps : Nat}
    (h : d.statement steps (skipSpace line) = .ok (next, [])) :
    statements (steps + 1) d line = .ok next := by
  rw [statements, h]
  rfl

theorem statements_blank (steps : Nat) (d : Document) (more : List Char) :
    statements (steps + 1) d ('\n' :: more) = statements steps d more := rfl

/-- **A name with a value** adds the value.  `hsteps` asks for one step more than the value has
characters, and every recursion of the reader uses one up. -/
theorem statement_assignment {d next : Document} {key : String} (h : Bare key)
    {chars after : List Char} {v : Value} (hchars : Spells chars v)
    (hadd : d.addValue [key] v = some next) {steps : Nat} (hsteps : chars.length ≤ steps + 1)
    (hafter : Value.Ended after) :
    d.statement (steps + 2) (skipSpace (assignment key.toList chars ++ after))
      = .ok (next, after) := by
  obtain ⟨c, tail, hcons⟩ := List.exists_cons_of_ne_nil h.nonempty
  have hc : isBareNameChar c := List.all_eq_true.mp h.all c (hcons ▸ List.mem_cons_self)
  have hname (rest : List Char) : namePart? (key.toList ++ ' ' :: rest) = some (key, ' ' :: rest) :=
    namePart?_bare h (by intro c hc; cases hc; decide)
  have hfield := field_assignment hname hchars hafter hsteps
  have hline : assignment key.toList chars ++ after
      = c :: (tail ++ ' ' :: '=' :: ' ' :: (chars ++ after)) := by
    simp [assignment, hcons]
  have hskip : skipSpace (assignment key.toList chars ++ after)
      = assignment key.toList chars ++ after := by
    rw [hline, skipSpace, List.dropWhile_cons_of_neg]
    intro hspace
    have hnone : ∀ c, isSpace c → isBareNameChar c = false := by
      intro c hc
      rcases Bool.or_eq_true_iff.mp hc with h | h <;> rw [beq_iff_eq.mp h] <;> decide
    rw [hnone c hspace] at hc
    exact absurd hc (by decide)
  rw [hskip]
  rw [hline] at hfield ⊢
  have hbegins : beginsName c := by simp [beginsName, hc]
  have hbracket : c ≠ '[' := by
    rintro rfl
    exact absurd hc (by decide)
  rw [statement, if_pos hbegins, hfield]
  · simp only [bind, Except.bind, hadd, required]
    rfl
  · exact fun _ h => absurd h hbracket
  · exact hbracket

/-- **A line with a name and a value** adds the value, and the line end behind it is taken. -/
theorem statements_assignment {d next : Document} {key : String} (h : Bare key)
    {chars : List Char} {v : Value} (hchars : Spells chars v)
    (hadd : d.addValue [key] v = some next) {steps : Nat}
    (hsteps : chars.length ≤ steps + 1) (more : List Char) :
    statements (steps + 3) d (assignment key.toList chars ++ '\n' :: more)
      = statements (steps + 2) next more :=
  statements_line (statement_assignment h hchars hadd hsteps (ended_of_cons (by decide) more))

/-! ## The list of rules -/

/-- The root table behind the version and some rules. -/
def rulesRoot (rules : List (Fields Value)) : Fields Value :=
  ("version", .int payloadVersion)
    :: if rules.isEmpty then [] else [("rules", .list (rules.map Value.table))]

theorem rulesRoot_snoc (rules : List (Fields Value)) (fields : Fields Value) :
    rulesRoot (rules ++ [fields]) = [("version", .int payloadVersion),
      ("rules", .list (rules.map Value.table ++ [.table fields]))] := by
  simp [rulesRoot]

/-- **Before a header**: the rules so far, and nothing frozen but what stands inside them. -/
structure Between (d : Document) (rules : List (Fields Value)) : Prop where
  root : d.root = rulesRoot rules
  frozen : ∀ path ∈ d.frozen, ["rules"] <+: path ∧ path ≠ ["rules"]

/-- **Inside a rule**: the rules before it, and what it has so far. -/
structure Within (d : Document) (rules : List (Fields Value)) (fields : Fields Value) : Prop where
  root : d.root = rulesRoot (rules ++ [fields])
  header : d.header = ["rules"]
  frozen : d.frozen = []

theorem appendTable_rulesRoot (rules : List (Fields Value)) :
    appendTable "rules" (rulesRoot rules) = some (rulesRoot (rules ++ [[]])) := by
  rw [rulesRoot_snoc]
  cases rules with
  | nil => rfl
  | cons first rest => rfl

/-- A header opens the next rule. -/
theorem exists_openItem {d : Document} {rules : List (Fields Value)} (h : d.Between rules) :
    ∃ next, d.settle.openItem ["rules"] = some next ∧ next.Within rules [] := by
  have hbelow : isBelow d.frozen ["rules"] = false := by
    rw [isBelow, List.any_eq_false]
    intro path hpath hprefix
    obtain ⟨hlow, hne⟩ := h.frozen path hpath
    have hhigh : path <+: ["rules"] := List.isPrefixOf_iff_prefix.mp hprefix
    exact hne (hhigh.eq_of_length (Nat.le_antisymm hhigh.length_le hlow.length_le))
  have hfrozen : d.frozen.filter (fun path => !(["rules"].isPrefixOf path)) = [] := by
    rw [List.filter_eq_nil_iff]
    intro path hpath
    simp [List.isPrefixOf_iff_prefix.mpr (h.frozen path hpath).1]
  have hroot : appendTable "rules" d.root = some (rulesRoot (rules ++ [[]])) := by
    rw [h.root, appendTable_rulesRoot]
  refine ⟨{ d.settle with
    root := rulesRoot (rules ++ [[]]), header := ["rules"]
    declared := ["rules"] :: d.settle.declared.filter fun path => !(["rules"].isPrefixOf path)
    frozen := [] }, ?_, rfl, rfl, rfl⟩
  rw [openItem, if_neg (by rw [settle, hbelow]; decide)]
  show (do let root ← appendTable "rules" d.root; some { d.settle with
    root, header := ["rules"], declared := _, frozen := d.frozen.filter _ }) = _
  rw [hroot, hfrozen]
  rfl

/-- A field is added to the rule. -/
theorem exists_addValue {d : Document} {rules : List (Fields Value)} {fields : Fields Value}
    (h : d.Within rules fields) (key : String) (hnew : key ∉ fields.keys) (v : Value) :
    ∃ next, d.addValue [key] v = some next
      ∧ next.root = rulesRoot (rules ++ [fields ++ [(key, v)]]) ∧ next.header = ["rules"]
      ∧ next.frozen = if isCompound v then [["rules", key]] else [] := by
  have hhas : Fields.has key fields = false := by
    rw [Fields.has, Fields.get?_eq_none_iff.mpr hnew]
    rfl
  have hadd : addField key v fields = some (fields ++ [(key, v)]) := by
    rw [addField, hhas, ← Fields.insert_of_not_mem hnew]
    rfl
  have hroot : updateNest true (addField key v) ["rules"] d.root
      = some (rulesRoot (rules ++ [fields ++ [(key, v)]])) := by
    rw [h.root, rulesRoot_snoc, rulesRoot_snoc]
    simp [updateNest, Fields.get?, Fields.insert, hadd]
  have hparent : d.header ++ [key].dropLast = ["rules"] := by
    rw [h.header]
    rfl
  refine ⟨{ d with
    root := rulesRoot (rules ++ [fields ++ [(key, v)]])
    frozen := if isCompound v then [["rules", key]] else [] }, ?_, rfl, h.header, rfl⟩
  unfold addValue
  rw [hparent]
  simp [waypoints, isBelow, h.frozen, hroot, h.header]

end Document

/-! ## Rules -/

/-- A rule as its table stands in the document. -/
def ruleFields (e : RuleEntry) : Fields Value :=
  [("name", .text e.name), ("description", .text e.description),
    ("parameters", .list (e.parameters.toList.map Parameter.stored))]

theorem spells_valueText {v : Value} (h : v.Portable) :
    Spells (valueText v).toList v.withSortedNames := by
  obtain ⟨chars, hwrite, hchars⟩ := exists_valueChars h.withSortedNames
  have htext : (valueText v).toList = chars := by
    rw [valueText, write, hwrite]
    exact String.toList_ofList
  rwa [htext]

theorem spells_valueText_text (s : String) : Spells (valueText (.text s)).toList (.text s) := by
  have hspells := spells_valueText (.text s)
  rwa [Value.withSortedNames_text] at hspells

theorem spells_valueText_parameters (e : RuleEntry) :
    Spells (valueText (.list (e.parameters.toList.map Parameter.toValue))).toList
      (.list (e.parameters.toList.map Parameter.stored)) := by
  have hportable : (Value.list (e.parameters.toList.map Parameter.toValue)).Portable := by
    refine .list _ fun v hv => ?_
    obtain ⟨p, -, rfl⟩ := List.mem_map.mp hv
    exact p.portable_toValue
  have hspells := spells_valueText hportable
  rw [Value.withSortedNames_list, List.map_map] at hspells
  exact hspells

/-- The text of a rule, with the empty line before it. -/
def ruleChars (e : RuleEntry) : List Char :=
  linesChars (ruleLines e)

theorem ruleChars_append (e : RuleEntry) (more : List Char) :
    ruleChars e ++ more = '\n' :: ("[[rules]]".toList ++ '\n'
      :: (assignment "name".toList (valueText (.text e.name)).toList ++ '\n'
      :: (assignment "description".toList (valueText (.text e.description)).toList ++ '\n'
      :: (assignment "parameters".toList
            (valueText (.list (e.parameters.toList.map Parameter.toValue))).toList
          ++ '\n' :: more)))) := by
  simp [ruleChars, ruleLines, linesChars, assignment]

theorem return_not_mem_ruleChars (e : RuleEntry) : '\r' ∉ ruleChars e := by
  have hall := ruleChars_append e []
  rw [List.append_nil] at hall
  have hname := (spells_valueText_text e.name).noReturn
  have hdescription := (spells_valueText_text e.description).noReturn
  have hparameters := (spells_valueText_parameters e).noReturn
  rw [hall]
  simp [assignment, hname, hdescription, hparameters]

namespace Document

/-- The header of a rule. -/
theorem statements_header {d next : Document} (h : d.settle.openItem ["rules"] = some next)
    (steps : Nat) (more : List Char) :
    statements (steps + 2) d ("[[rules]]".toList ++ '\n' :: more)
      = statements (steps + 1) next more := by
  have hpart : namePart? ("rules".toList ++ ']' :: ']' :: '\n' :: more)
      = some ("rules", ']' :: ']' :: '\n' :: more) :=
    namePart?_bare ⟨by decide, by decide⟩ (by intro c hc; cases hc; decide)
  have hname : name? (steps + 1) ("rules".toList ++ ']' :: ']' :: '\n' :: more)
      = some (["rules"], ']' :: ']' :: '\n' :: more) := by
    rw [name?, hpart]
    rfl
  have hskip : skipSpace ("rules".toList ++ ']' :: ']' :: '\n' :: more)
      = "rules".toList ++ ']' :: ']' :: '\n' :: more :=
    rfl
  refine statements_line ?_
  show statement (steps + 1) d ('[' :: '[' :: ("rules".toList ++ ']' :: ']' :: '\n' :: more)) = _
  rw [statement, hskip, hname]
  simp only [bind, Except.bind, required, h]
  rfl

/-- **A rule is read where it was written**, behind the rules before it: `Document.Between` says
which rules the document has when the next header comes. -/
theorem exists_statements_rule {d : Document} {rules : List (Fields Value)} (h : d.Between rules)
    (e : RuleEntry) (more : List Char) (steps : Nat)
    (hsteps : (ruleChars e).length ≤ steps + 5) :
    ∃ next, next.Between (rules ++ [ruleFields e])
      ∧ statements (steps + 7) d (ruleChars e ++ more) = statements (steps + 2) next more := by
  obtain ⟨opened, hopen, hwithin⟩ := exists_openItem h
  obtain ⟨named, hnamed, hroot, hheader, hfrozen⟩ :=
    exists_addValue hwithin "name" (by simp [Fields.keys]) (.text e.name)
  obtain ⟨described, hdescribed, hroot', hheader', hfrozen'⟩ :=
    exists_addValue ⟨hroot, hheader, hfrozen⟩ "description" (by simp [Fields.keys])
      (.text e.description)
  obtain ⟨final, hfinal, hroot'', -, hfrozen''⟩ :=
    exists_addValue ⟨hroot', hheader', hfrozen'⟩ "parameters" (by simp [Fields.keys])
      (.list (e.parameters.toList.map Parameter.stored))
  refine ⟨final, ⟨hroot'', fun path hpath => ?_⟩, ?_⟩
  · rw [hfrozen''] at hpath
    rw [List.mem_singleton.mp hpath]
    decide
  · have hlength := congrArg List.length (ruleChars_append e [])
    simp only [List.append_nil, List.length_cons, List.length_append, assignment] at hlength
    rw [ruleChars_append, statements_blank, statements_header hopen,
      statements_assignment ⟨by decide, by decide⟩ (spells_valueText_text e.name) hnamed (by omega),
      statements_assignment ⟨by decide, by decide⟩ (spells_valueText_text e.description) hdescribed
        (by omega),
      statements_assignment ⟨by decide, by decide⟩ (spells_valueText_parameters e) hfinal
        (by omega)]

/-- **All rules are read one after another**, by induction on the entries with
`exists_statements_rule`; the steps are counted in characters. -/
theorem exists_statements_rules (entries : List RuleEntry) {d : Document}
    {rules : List (Fields Value)} (h : d.Between rules) (steps : Nat)
    (hsteps : (entries.flatMap ruleChars).length + 3 ≤ steps) :
    ∃ final, statements steps d (entries.flatMap ruleChars) = .ok final
      ∧ final.root = rulesRoot (rules ++ entries.map ruleFields) := by
  induction entries generalizing d rules steps with
  | nil =>
    obtain ⟨steps, rfl⟩ : ∃ n, steps = n + 1 := ⟨steps - 1, by omega⟩
    exact ⟨d, rfl, by rw [List.map_nil, List.append_nil, h.root]⟩
  | cons e rest ih =>
    have hlong : 11 ≤ (ruleChars e).length := by
      have hlength := congrArg List.length (ruleChars_append e [])
      have hheader : "[[rules]]".toList.length = 9 := rfl
      simp only [List.append_nil, List.length_cons, List.length_append, hheader] at hlength
      omega
    rw [List.flatMap_cons, List.length_append] at hsteps
    obtain ⟨steps, rfl⟩ : ∃ n, steps = n + 7 := ⟨steps - 7, by omega⟩
    obtain ⟨next, hnext, hread⟩ := exists_statements_rule h e (rest.flatMap ruleChars)
      steps (by omega)
    obtain ⟨final, hfinal, hroot⟩ := ih hnext (steps + 2) (by omega)
    refine ⟨final, ?_, ?_⟩
    · rw [List.flatMap_cons, hread, hfinal]
    · rw [hroot, List.map_cons, ← List.append_cons]

end Document

/-- A text without returns is read as it stands. -/
theorem parse_of_not_mem {s : String} (hreturn : '\r' ∉ s.toList) {d : Document}
    (h : Document.statements (4 * s.toList.length + 4) {} s.toList = .ok d) :
    parse s = .ok (.table d.root) := by
  have hall : Text.replaceAll ['\r', '\n'] ['\n'] (s.toList ++ []) = _ :=
    Text.replaceAll_append_of_not_mem hreturn []
  rw [List.append_nil, Text.replaceAll_nil, List.append_nil] at hall
  rw [parse, hall, h]
  rfl

/-- **TOML reads back what it writes of a catalogue**: the version and the tables of its rules.
Nothing is asked of the catalogue, as its texts may be any. -/
theorem parse_ofCatalogue (c : Catalogue) :
    parse (ofCatalogue c)
      = .ok (.table (Document.rulesRoot (c.sortedEntries.map ruleFields))) := by
  have hversion : Spells (toString payloadVersion).toList (.int payloadVersion) :=
    spells_int (by decide)
  have hchars : (ofCatalogue c).toList
      = assignment "version".toList (toString payloadVersion).toList
        ++ '\n' :: c.sortedEntries.flatMap ruleChars := by
    rw [toList_ofCatalogue, linesChars_cons, linesChars_flatMap]
    rfl
  have hreturn : '\r' ∉ (ofCatalogue c).toList := by
    have hnumber : '\r' ∉ (toString payloadVersion).toList := hversion.noReturn
    rw [hchars, assignment]
    simp only [List.mem_append, List.mem_cons, List.mem_flatMap, hnumber, return_not_mem_ruleChars]
    simp
  have hbegin : Document.Between { root := Document.rulesRoot [] } [] :=
    ⟨rfl, fun _ hpath => absurd hpath List.not_mem_nil⟩
  have hadd : Document.addValue {} ["version"] (.int payloadVersion)
      = some { root := Document.rulesRoot [] } :=
    rfl
  have hlength : (toString payloadVersion).toList.length = 1 := rfl
  obtain ⟨steps, hsteps⟩ : ∃ n, 4 * (ofCatalogue c).toList.length + 4 = n + 3 := ⟨_, rfl⟩
  have hlong := congrArg List.length hchars
  simp only [List.length_append, List.length_cons] at hlong
  obtain ⟨final, hfinal, hroot⟩ := Document.exists_statements_rules c.sortedEntries hbegin
    (steps + 2) (by omega)
  rw [parse_of_not_mem hreturn (d := final), hroot]
  · rfl
  · rw [hsteps, hchars, Document.statements_assignment ⟨by decide, by decide⟩ hversion hadd
      (by omega), hfinal]

end RuleCatalogue.Toml

/-! ## What the writer of TOML gives -/

namespace RuleCatalogue.Toml

/-! ## Refusals -/

/-- **Why a part is not written**, whatever stands inside it. -/
def refusal? : Value → Option Unwritable
  | .text _ => none
  | .bool _ => none
  | .int n => if Decimal.Short n then none else some .oversizedInteger
  | .list _ => none
  | .table _ => none
  | v => some (.unsupported v.kind)

theorem refusal?_withSortedNames (v : Value) : refusal? v.withSortedNames = refusal? v := by
  cases v with
  | list items =>
    rw [Value.withSortedNames_list]
    rfl
  | table fields =>
    rw [Value.withSortedNames_table]
    rfl
  | _ => rfl

/-- A regular part is refused if and only if it is unsupported. -/
theorem refusal?_eq_some_iff {part : Value} (h : part.Regular) {e : Unwritable} :
    refusal? part = some e ↔ part.isUnsupported ∧ e = .unsupported part.kind := by
  cases part with
  | int n =>
    have hshort : refusal? (.int n) = none := if_pos h
    simp [hshort, Value.isUnsupported]
  | mapping entries => exact h.elim
  | _ => simp [refusal?, Value.isUnsupported, eq_comm]

/-- A field of an inline table, or why its value is not written. -/
def fieldChars (field : String × Value) : Except Unwritable (List Char) := do
  let piece ← valueChars field.2
  return quotedChars field.1 ++ " = ".toList ++ piece

theorem fallible_fieldChars {field : String × Value} {wrong : Unwritable → Prop} {right : Prop}
    (h : Fallible wrong (fun _ => right) (valueChars field.2)) :
    Fallible wrong (fun _ => right) (fieldChars field) :=
  h.bind fun _ hright => hright

theorem itemsChars_eq_mapM (items : List Value) : itemsChars items = items.mapM valueChars := by
  induction items with
  | nil => rfl
  | cons v rest ih =>
    rw [itemsChars, ih, List.mapM_cons]

theorem fieldsChars_eq_mapM (fields : Fields Value) :
    fieldsChars fields = fields.mapM fieldChars := by
  induction fields with
  | nil => rfl
  | cons field rest ih =>
    rw [fieldsChars, ih, List.mapM_cons, fieldChars, bind_assoc]
    rfl

/-- **A value is written unless one of its parts is refused**, and then the error is the refusal of
such a part.  The induction is on the value; `Value.parts` lists it and all that is in it. -/
theorem fallible_valueChars (v : Value) :
    Fallible (fun e => ∃ part ∈ v.parts, refusal? part = some e)
      (fun _ => ∀ part ∈ v.parts, refusal? part = none) (valueChars v) := by
  induction v using Value.inductionOn with
  | leaf v h =>
    rw [Value.parts_of_leaf h]
    simp only [List.mem_singleton, exists_eq_left, forall_eq]
    cases v with
    | list items => exact nomatch h
    | table fields => exact nomatch h
    | int n =>
      rw [valueChars]
      refine Fallible.ite (fun hshort => ?_) fun hlong => ?_
      · exact if_pos hshort
      · exact if_neg hlong
    | _ => rfl
  | list items ih =>
    rw [valueChars, itemsChars_eq_mapM]
    refine (Fallible.mapM_forall fun v hv => (ih v hv).mono ?_ fun _ h => h).bind fun _ hall => ?_
    · rintro e ⟨part, hpart, he⟩
      exact ⟨part, Value.mem_parts_list.mpr (.inr ⟨v, hv, hpart⟩), he⟩
    · intro part hpart
      rcases Value.mem_parts_list.mp hpart with rfl | ⟨v, hv, hpart⟩
      · rfl
      · exact hall v hv part hpart
  | table fields ih =>
    rw [valueChars, fieldsChars_eq_mapM]
    refine (Fallible.mapM_forall fun field hfield =>
      fallible_fieldChars ((ih field hfield).mono ?_ fun _ h => h)).bind fun _ hall => ?_
    · rintro e ⟨part, hpart, he⟩
      exact ⟨part, Value.mem_parts_table.mpr (.inr ⟨field, hfield, hpart⟩), he⟩
    · intro part hpart
      rcases Value.mem_parts_table.mp hpart with rfl | ⟨field, hfield, hpart⟩
      · rfl
      · exact hall field hfield part hpart

/-- That the writer sorts all names first changes nothing about it. -/
theorem fallible_write (v : Value) :
    Fallible (fun e => ∃ part ∈ v.parts, refusal? part = some e)
      (fun _ => ∀ part ∈ v.parts, refusal? part = none) (write v) := by
  refine ((fallible_valueChars v.withSortedNames).mono ?_ ?_).map fun _ h => h
  · rintro e ⟨part, hpart, he⟩
    obtain ⟨old, hold, rfl⟩ := (Value.mem_parts_withSortedNames v part).mp hpart
    exact ⟨old, hold, by rwa [refusal?_withSortedNames] at he⟩
  · intro chars hall old hold
    rw [← refusal?_withSortedNames]
    exact hall _ ((Value.mem_parts_withSortedNames v _).mpr ⟨old, hold, rfl⟩)

/-! ## A value behind a name -/

theorem Bare.return_not_mem {key : String} (h : Bare key) : '\r' ∉ key.toList := fun hmem =>
  absurd (List.all_eq_true.mp h.all '\r' hmem) (by decide)

/-- **A document of one name and a value** is a table of that name alone, when `chars` spell the
value. -/
theorem parse_assignment {key : String} (hkey : Bare key) {chars : List Char} {v : Value}
    (hchars : Spells chars v) {s : String} (hs : s.toList = assignment key.toList chars) :
    parse s = .ok (.table [(key, v)]) := by
  have hreturn : '\r' ∉ s.toList := by
    rw [hs]
    simp [assignment, hkey.return_not_mem, hchars.noReturn]
  have hlength : s.toList.length = key.toList.length + (chars.length + 3) := by
    rw [hs]
    simp [assignment]
  obtain ⟨d, hadd, hroot⟩ :
      ∃ d : Document, Document.addValue {} [key] v = some d ∧ d.root = [(key, v)] :=
    ⟨_, rfl, rfl⟩
  -- The steps that the reader takes are bounded by the whole text, those of a value by its own.
  obtain ⟨steps, hsteps⟩ : ∃ n, 4 * s.toList.length + 4 = n + 3 := ⟨_, rfl⟩
  have hread : Document.statement (steps + 2) {} (skipSpace (assignment key.toList chars ++ []))
      = .ok (d, []) :=
    Document.statement_assignment hkey hchars hadd (by omega) Value.ended_nil
  rw [List.append_nil] at hread
  rw [← hroot]
  refine parse_of_not_mem hreturn ?_
  rw [hsteps, hs]
  exact Document.statements_last hread

/-! ## Values that were written -/

/-- A portable value is written, and read back under the name that it stands behind. -/
theorem exists_parse_write {v : Value} (h : v.Portable) {key : String} (hkey : Bare key) :
    ∃ text, write v = .ok text
      ∧ parse (key ++ " = " ++ text) = .ok (.table [(key, v.withSortedNames)]) := by
  obtain ⟨chars, hwrite, hchars⟩ := exists_valueChars h.withSortedNames
  refine ⟨String.ofList chars, by rw [write, hwrite]; rfl, parse_assignment hkey hchars ?_⟩
  simp [assignment]

/-- Names come in order, and the delete character is escaped. -/
example : write (.table [("b", .list [.int (-1), .table []]), ("a", .text "\x7f\"")])
    = .ok "\x7b \"a\" = \"\\u007F\\\"\", \"b\" = [-1, \x7b  \x7d] \x7d" := by
  cbv

/-- **The reader of TOML inverts its writer.**  Take any value whose tables are named by texts, each
once, and whose integers are short enough to be written, at any depth.  If none of its parts is
unsupported, it is written, and the document that assigns what was written to `x` holds exactly this
value under `x` and nothing else.  The writer refuses the value if and only if one of its parts is
unsupported, and names the kind of such a part. -/
theorem parse_write {v : Value} (regular : ∀ part ∈ v.parts, part.Regular) :
    ((∀ part ∈ v.parts, part.isUnsupported = false) →
        ∃ text, write v = .ok text
          ∧ parse ("x = " ++ text) = .ok (.table [("x", v.withSortedNames)])
          ∧ v.withSortedNames.Same v)
      ∧ ((∃ e, write v = .error e) ↔ ∃ part ∈ v.parts, part.isUnsupported)
      ∧ ∀ e, write v = .error e →
          ∃ part ∈ v.parts, part.isUnsupported ∧ e = .unsupported part.kind := by
  have hrefused (e : Unwritable) (he : write v = .error e) :
      ∃ part ∈ v.parts, part.isUnsupported ∧ e = .unsupported part.kind := by
    obtain ⟨part, hpart, hrefusal⟩ := (fallible_write v).of_error he
    exact ⟨part, hpart, (refusal?_eq_some_iff (regular part hpart)).mp hrefusal⟩
  refine ⟨fun hsupported => ?_, ⟨?_, ?_⟩, hrefused⟩
  · have hportable := Value.portable_of_parts regular hsupported
    have hkey : Bare "x" := ⟨by decide, by decide⟩
    obtain ⟨text, hwrite, hread⟩ := exists_parse_write hportable hkey
    exact ⟨text, hwrite, hread, hportable.same_withSortedNames⟩
  · rintro ⟨e, he⟩
    obtain ⟨part, hpart, hunsupported, -⟩ := hrefused e he
    exact ⟨part, hpart, hunsupported⟩
  · rintro ⟨part, hpart, hunsupported⟩
    cases hwrite : write v with
    | error e => exact ⟨e, rfl⟩
    | ok text =>
      -- A value that was written has no part that is refused, and this one is.
      have hnone := (fallible_write v).of_ok hwrite part hpart
      have hsome := (refusal?_eq_some_iff (regular part hpart)).mpr ⟨hunsupported, rfl⟩
      rw [hnone] at hsome
      exact nomatch hsome

/-- A value whose names and texts hold marks of the format itself. -/
def markedValue : Value :=
  .table [
    ("\x7d, \"x\" = [", .list [.text "\x7f]\\\"\"\"", .table [], .list [], .text ""]),
    ("", .table [("# =", .int (-7)), ("'\n.", .bool false)])]

/-- A value with a part that is not written, inside a table inside a list. -/
def gappedValue : Value :=
  .list [.int 0, .table [("b", .list [.null]), ("a", .text "")]]

/-- Marks of the format inside names and texts are read back; a missing value inside is refused. -/
theorem parse_write_marked :
    (∀ part ∈ markedValue.parts, part.Regular)
      ∧ (∀ part ∈ markedValue.parts, part.isUnsupported = false)
      ∧ (∃ text, write markedValue = .ok text
          ∧ parse ("x = " ++ text) = .ok (.table [("x", markedValue.withSortedNames)])
          ∧ markedValue.withSortedNames.Same markedValue)
      ∧ (∀ part ∈ gappedValue.parts, part.Regular)
      ∧ (∃ part ∈ gappedValue.parts, part.isUnsupported)
      ∧ ∃ e, write gappedValue = .error e := by
  have hmarked : ∀ part ∈ markedValue.parts, part.Regular := by decide
  have hwritten : ∀ part ∈ markedValue.parts, part.isUnsupported = false := by decide
  have hgapped : ∀ part ∈ gappedValue.parts, part.Regular := by decide
  have hmissing : ∃ part ∈ gappedValue.parts, part.isUnsupported := by decide
  exact ⟨hmarked, hwritten, (parse_write hmarked).1 hwritten, hgapped, hmissing,
    (parse_write hgapped).2.1.mpr hmissing⟩

end RuleCatalogue.Toml
