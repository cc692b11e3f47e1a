import Mathlib.Data.List.Forall2
import RuleCatalogue.Proofs.Table
import RuleCatalogue.Proofs.Yaml.Document
import RuleCatalogue.Yaml.Reader

/-!
# The value that tokens stand for

Between tokens and values lie nodes and trees.  What is said of a scalar, a list and a table is one
thing for all three stages, `Denotes`: the tokens form a node, which has a tree, which has a value.

## Main definitions

* `Denotes`: tokens stand for a value.

## Design notes

Each stage bounds how deep it goes by a number that is taken from the number of tokens.  A list at a
key has no tokens of its own around its items, so two steps are allowed for every token of a node.

* `DenotesField`: a name and tokens stand for a field.

## Main results

* `denotes_scalar`, `denotes_list` and `denotes_table`: one for each kind of node.
* `denotes_catalogue`: the tokens of a catalogue stand for its fields.
* `parse_ofCatalogue`: so does its text, by `ofText_ofCatalogue`.
-/

namespace RuleCatalogue.Yaml

/-- **Tokens stand for a value.**  `field` says whether they stand at a key of a mapping: only there
a list may stand, and what follows them is the next key or the end of the mapping. -/
structure Denotes (field : Bool) (content : List Token) (v : Value) : Prop where
  endsField : ∀ rest, Node.endsField (content ++ rest) = false
  endsItem : field = false → ∀ rest, Node.endsItem (content ++ rest) = false
  exists_tree : ∃ n t,
    (∀ steps rest, 2 * content.length ≤ steps → (field → Node.endsField rest) →
      Node.node Node.defaultHandles true field steps (content ++ rest) = .ok (n, rest))
    ∧ (∀ anchors, Tree.ofNode anchors n = .ok (t, anchors))
    ∧ ∀ steps around level, content.length ≤ steps → valueOf steps around level t = .ok v

theorem Denotes.length_pos {field : Bool} {content : List Token} {v : Value}
    (h : Denotes field content v) : 0 < content.length := by
  rw [List.length_pos_iff]
  rintro rfl
  exact Bool.noConfusion (h.endsField [.blockEnd])

/-! ## Scalars -/

/-- The value of a scalar is what its tag makes of its text, wherever it stands. -/
theorem valueOf_scalar {tag text kind : String} {read : String → Except ReadError Value}
    (hkind : kindOf? tag = some kind) (hread : scalarReader? kind = some read) (steps level : Nat)
    (around : Surroundings) :
    valueOf (steps + 1) around level (.scalar tag text) = Outcome.atLevel level (read text) := by
  have hfree : (Tree.scalar tag text).isAmong around.above = false := rfl
  have htag : (Tree.scalar tag text).tag around.anchors = tag := rfl
  have hmapping : (Tree.scalar tag text).isMapping around.anchors = false := rfl
  have htext : (Tree.scalar tag text).scalarText around.anchors (steps + 1) = .ok text := rfl
  simp only [valueOf, hfree, htag, hkind, hread, Bool.false_eq_true, if_false, scalarValue,
    hmapping, htext, Bool.and_false, bind, Except.bind]

theorem denotes_scalar {plain : Bool} {text kind : String} {read : String → Except ReadError Value}
    {v : Value} (hkind : kindOf? (Tree.scalarTag none plain text) = some kind)
    (hread : scalarReader? kind = some read) (hv : read text = .ok v) (field : Bool) :
    Denotes field [.scalar plain text] v where
  endsField _ := rfl
  endsItem _ _ := rfl
  exists_tree := by
    refine ⟨.scalar {} plain text, .scalar (Tree.scalarTag none plain text) text,
      fun steps rest hsteps _ => ?_, fun _ => rfl, fun steps around level hsteps => ?_⟩
    · obtain ⟨steps, rfl⟩ : ∃ n, steps = n + 1 := ⟨steps - 1, by simp at hsteps; omega⟩
      rfl
    · obtain ⟨steps, rfl⟩ : ∃ n, steps = n + 1 := ⟨steps - 1, by simp at hsteps; omega⟩
      rw [valueOf_scalar hkind hread, hv]
      rfl

theorem kindOf?_tag (kind : String) : kindOf? (tagStart ++ kind) = some kind := by
  have hstart : Text.startsWith tagStart (tagStart ++ kind) := by
    simp [Text.startsWith]
  rw [kindOf?, if_pos hstart, String.toList_append, ← String.length_toList, List.drop_left,
    String.ofList_toList]

/-- The tag of a text: it does not look like something else, or it is not plain. -/
theorem scalarTag_of_looks {plain : Bool} {text : String}
    (h : plain → PlainKind.ofText text.toList = .text) :
    Tree.scalarTag none plain text = tagStart ++ "str" := by
  cases plain with
  | false => rfl
  | true =>
    show tagStart ++ Tree.kindName (PlainKind.ofText text.toList) = _
    rw [h rfl]
    rfl

theorem denotes_textToken (text : String) (field : Bool) :
    Denotes field [textToken text] (.text (reread text)) := by
  have htag : Tree.scalarTag none (decide (styleOf text.toList = .plain)) (reread text)
      = tagStart ++ "str" := by
    refine scalarTag_of_looks fun hplain => ?_
    have hstyle : styleOf text.toList = .plain := of_decide_eq_true hplain
    rw [reread, hstyle, if_neg (by decide)]
    exact (of_styleOf_plain hstyle).2
  exact denotes_scalar ((congrArg kindOf? htag).trans (kindOf?_tag "str")) rfl rfl field

theorem denotes_version (field : Bool) : Denotes field [.scalar true "1"] (.int 1) := by
  have htag : Tree.scalarTag none true "1" = tagStart ++ "int" := rfl
  exact denotes_scalar ((congrArg kindOf? htag).trans (kindOf?_tag "int")) rfl rfl field

/-! ## Lists -/

theorem allOf_cons {α : Type} {x : α} {xs : List α} {rest : List (Outcome α)}
    (h : allOf rest = .ok xs) : allOf (.ok x :: rest) = .ok (x :: xs) := by
  show (Outcome.both (.ok x) (allOf rest)).map _ = _
  rw [h]
  rfl

/-- The tokens of the items of a list. -/
def itemsTokens (items : List (List Token)) : List Token :=
  items.flatMap fun item => .entry :: item

/-- Items form nodes, which have trees, which have values. -/
theorem exists_trees_items {items : List (List Token)} {values : List Value}
    (h : List.Forall₂ (Denotes false) items values) :
    ∃ ns ts,
      (∀ steps rest, 0 < steps → 2 * (itemsTokens items).length ≤ steps + 1 → Node.endsField rest →
        Node.looseItems Node.defaultHandles steps (itemsTokens items ++ rest) = .ok (ns, rest))
      ∧ (∀ anchors, Tree.ofItems anchors ns = .ok (ts, anchors))
      ∧ ∀ steps around level, (itemsTokens items).length ≤ steps + 1 →
          allOf (ts.map (valueOf steps around level)) = .ok values := by
  induction h with
  | nil =>
    refine ⟨[], [], fun steps rest hpos _ hrest => ?_, fun _ => rfl, fun _ _ _ _ => rfl⟩
    obtain ⟨steps, rfl⟩ : ∃ n, steps = n + 1 := ⟨steps - 1, by omega⟩
    rw [itemsTokens, List.flatMap_nil, List.nil_append, Node.looseItems]
    rintro more rfl
    cases hrest
  | @cons item v items values hitem _ ih =>
    obtain ⟨n, t, hnode, htree, hvalue⟩ := hitem.exists_tree
    obtain ⟨ns, ts, hnodes, htrees, hvalues⟩ := ih
    have hpos := hitem.length_pos
    have hlength : (itemsTokens (item :: items)).length
        = item.length + 1 + (itemsTokens items).length := by
      simp only [itemsTokens, List.flatMap_cons, List.length_append, List.length_cons]
    refine ⟨n :: ns, t :: ts, fun steps rest _ hsteps hrest => ?_, fun anchors => ?_,
      fun steps around level hsteps => ?_⟩
    · obtain ⟨steps, rfl⟩ : ∃ n, steps = n + 1 := ⟨steps - 1, by omega⟩
      have htokens : itemsTokens (item :: items) ++ rest
          = .entry :: (item ++ (itemsTokens items ++ rest)) := by
        simp [itemsTokens]
      have hread := hnode steps (itemsTokens items ++ rest) (by omega) (fun e => nomatch e)
      rw [htokens, Node.looseItems]
      simp only [hitem.endsField, hitem.endsItem rfl, Bool.or_self, Bool.false_eq_true, if_false,
        hread, hnodes steps rest (by omega) (by omega) hrest, bind, Except.bind]
      rfl
    · rw [Tree.ofItems, htree]
      simp only [bind, Except.bind, htrees]
      rfl
    · rw [List.map_cons, hvalue steps around level (by omega)]
      exact allOf_cons (hvalues steps around level (by omega))

/-- The value of a sequence without an anchor consists of the values of its items. -/
theorem valueOf_sequence (steps level : Nat) (around : Surroundings) (ts : List Tree) :
    valueOf (steps + 1) around level (.sequence none (tagStart ++ "seq") ts)
      = (allOf (ts.map (valueOf steps around (level + 1)))).map .list := by
  have hfree : (Tree.sequence none (tagStart ++ "seq") ts).isAmong around.above = false := rfl
  have htag : (Tree.sequence none (tagStart ++ "seq") ts).tag around.anchors = tagStart ++ "seq" :=
    rfl
  have hread : scalarReader? "seq" = none := rfl
  simp only [valueOf, hfree, htag, kindOf?_tag, hread, Bool.false_eq_true, if_false]
  rfl

/-- **A list at a key**, when each of its items denotes its value.  Items stand in a block of their
own, so they are not at a key. -/
theorem denotes_list {items : List (List Token)} {values : List Value}
    (h : List.Forall₂ (Denotes false) items values) :
    Denotes true (listTokens items) (.list values) := by
  cases items with
  | nil =>
    cases h
    refine ⟨fun _ => rfl, (fun e => nomatch e),
      ⟨.sequence {} [], .sequence none (tagStart ++ "seq") [], fun steps rest hsteps _ => ?_,
        fun _ => rfl, fun steps around level hsteps => ?_⟩⟩
    · obtain ⟨steps, rfl⟩ : ∃ n, steps = n + 2 := ⟨steps - 2, by simp [listTokens] at hsteps; omega⟩
      rfl
    · obtain ⟨steps, rfl⟩ : ∃ n, steps = n + 1 := ⟨steps - 1, by simp [listTokens] at hsteps; omega⟩
      rw [valueOf_sequence]
      rfl
  | cons item more =>
    obtain ⟨ns, ts, hnodes, htrees, hvalues⟩ := exists_trees_items h
    have hbegins : listTokens (item :: more) = .entry :: (item ++ itemsTokens more) := rfl
    have hlength : (listTokens (item :: more)).length = (itemsTokens (item :: more)).length := rfl
    refine ⟨fun _ => rfl, (fun e => nomatch e),
      ⟨.sequence {} ns, .sequence none (tagStart ++ "seq") ts, fun steps rest hsteps hrest => ?_,
        fun anchors => ?_, fun steps around level hsteps => ?_⟩⟩
    · obtain ⟨steps, rfl⟩ : ∃ n, steps = n + 1 := ⟨steps - 1, by simp [hbegins] at hsteps; omega⟩
      have hpos : 0 < (listTokens (item :: more)).length := by simp [hbegins]
      have hread : Node.looseItems _ steps (listTokens (item :: more) ++ rest) = _ :=
        hnodes steps rest (by omega) (by omega) (hrest rfl)
      rw [hbegins, List.cons_append] at hread ⊢
      simp only [Node.node, Node.properties, bind, Except.bind, if_true, hread]
      rfl
    · simp only [Tree.ofNode, Tree.enterOpen, Tree.enter, bind, Except.bind, htrees]
      rfl
    · obtain ⟨steps, rfl⟩ : ∃ n, steps = n + 1 := ⟨steps - 1, by simp [hbegins] at hsteps; omega⟩
      rw [valueOf_sequence, hvalues steps around (level + 1) hsteps]
      rfl

/-! ## Tables -/

/-- The entries of a mapping whose keys are texts. -/
def textEntries (fields : Fields Value) : List (Value × Value) :=
  fields.map fun field => (.text field.1, field.2)

theorem textFields_textEntries (fields : Fields Value) :
    Value.textFields (textEntries fields) = fields := by
  induction fields with
  | nil => rfl
  | cons field rest ih => exact congrArg (field :: ·) ih

theorem insertEntry_textEntries (key : String) (v : Value) (fields : Fields Value) :
    insertEntry (.text key) v (textEntries fields) = textEntries (Fields.insert key v fields) := by
  induction fields with
  | nil => rfl
  | cons field rest ih =>
    have hsame : sameKey (.text field.1) (.text key) = (field.1 == key) := rfl
    show (if sameKey (.text field.1) (.text key) then (Value.text field.1, v) :: textEntries rest
      else (Value.text field.1, field.2) :: insertEntry (.text key) v (textEntries rest)) = _
    rw [hsame, ih, Fields.insert]
    by_cases hkey : field.1 = key
    · rw [if_pos (beq_iff_eq.mpr hkey), if_pos hkey]
      rfl
    · rw [if_neg fun e => hkey (eq_of_beq e), if_neg hkey]
      rfl

/-- Entries whose keys are all different are what they leave. -/
theorem entriesOf_textEntries {fields : Fields Value} (h : (Fields.keys fields).Nodup) :
    entriesOf (textEntries fields) = textEntries fields := by
  have hofList : entriesOf (textEntries fields) = textEntries (Fields.ofList fields) := by
    rw [entriesOf, textEntries, List.foldl_map]
    exact @List.foldl_hom _ _ _ textEntries
      (fun entries field => Fields.insert field.1 field.2 entries)
      (fun entries field => insertEntry (.text field.1) field.2 entries) fields []
      fun entries field => insertEntry_textEntries field.1 field.2 entries
  rw [hofList, Fields.ofList_of_nodup h]

theorem ofEntries_textEntries (fields : Fields Value) :
    ofEntries (textEntries fields) = .table fields := by
  rw [ofEntries, textFields_textEntries, textEntries, List.length_map, if_pos rfl]

/-- Tokens at a key stand for the value at this key. -/
inductive DenotesField : String × List Token → String × Value → Prop
  | intro {key : String} {content : List Token} {v : Value}
      (looks : PlainKind.ofText key.toList = .text) (h : Denotes true content v) :
      DenotesField (key, content) (key, v)

/-- The tokens of the fields of a table. -/
def fieldsTokens (fields : List (String × List Token)) : List Token :=
  fields.flatMap fun field => fieldTokens field.1 field.2

theorem endsField_fieldsTokens (fields : List (String × List Token)) (rest : List Token) :
    Node.endsField (fieldsTokens fields ++ .blockEnd :: rest) := by
  cases fields <;> rfl

section Field

variable {key : String} {content : List Token}

/-- A key and its value are read in front of the other fields of a mapping. -/
theorem blockPairs_field {n : Node} {ns : List (Node × Node)} {behind rest : List Token}
    {steps : Nat} (hends : Node.endsField (content ++ behind) = false)
    (hread : Node.node Node.defaultHandles true true (steps + 1) (content ++ behind)
      = .ok (n, behind))
    (hmore : Node.blockPairs Node.defaultHandles (steps + 1) behind = .ok (ns, rest)) :
    Node.blockPairs Node.defaultHandles (steps + 3) (fieldTokens key content ++ behind)
      = .ok ((.scalar {} true key, n) :: ns, rest) := by
  have htokens : fieldTokens key content ++ behind
      = .key :: .scalar true key :: .value :: (content ++ behind) := rfl
  have hkey (more : List Token) : Node.node Node.defaultHandles true true (steps + 2)
      (.scalar true key :: more) = .ok (.scalar {} true key, more) := rfl
  have hkeyEnds (more : List Token) : Node.endsField (.scalar true key :: more) = false := rfl
  rw [htokens, Node.blockPairs]
  simp only [hkeyEnds, hkey, Bool.false_eq_true, if_false, bind, Except.bind]
  rw [Node.blockValue]
  simp only [hends, Bool.false_eq_true, if_false, hread, hmore, bind, Except.bind]
  rfl

/-- The tree of a key that looks like a text, in front of the other fields of a mapping. -/
theorem ofPairs_field {n : Node} {ns : List (Node × Node)} {t : Tree} {ts : List (Tree × Tree)}
    {anchors : Anchors} (hlooks : PlainKind.ofText key.toList = .text)
    (htree : Tree.ofNode anchors n = .ok (t, anchors))
    (htrees : Tree.ofPairs anchors ns = .ok (ts, anchors)) :
    Tree.ofPairs anchors ((.scalar {} true key, n) :: ns)
      = .ok ((.scalar (tagStart ++ "str") key, t) :: ts, anchors) := by
  have hkey : Tree.ofNode anchors (.scalar {} true key)
      = .ok (.scalar (Tree.scalarTag none true key) key, anchors) := rfl
  rw [Tree.ofPairs, hkey, scalarTag_of_looks fun _ => hlooks]
  simp only [bind, Except.bind, htree, htrees]
  rfl

theorem keyed_field {t : Tree} {v : Value} {steps level : Nat} {around : Surroundings}
    (hvalue : valueOf (steps + 1) around level t = .ok v) :
    keyed (!isCollection around.anchors (.scalar (tagStart ++ "str") key)) level
      (valueOf (steps + 1) around level (.scalar (tagStart ++ "str") key))
      (valueOf (steps + 1) around level t) = .ok (.text key, v) := by
  have hcollection : isCollection around.anchors (.scalar (tagStart ++ "str") key) = false := by
    show (kindOf? (tagStart ++ "str")).any collectionKinds.contains = false
    rw [kindOf?_tag]
    rfl
  rw [valueOf_scalar (kindOf?_tag "str") rfl, hvalue, hcollection]
  rfl

end Field

/-- Keys that are texts, as they are written. -/
def TextKeys (pairs : List (Tree × Tree)) : Prop :=
  ∀ pair ∈ pairs, ∃ key, pair.1 = .scalar (tagStart ++ "str") key

/-- A key that is a text does not ask for a merge, and is no mark of a default value. -/
theorem TextKeys.mergedPairs {pairs : List (Tree × Tree)} (h : TextKeys pairs) (anchors : Anchors)
    (steps : Nat) (busy : List String) :
    Tree.mergedPairs anchors (steps + 1) busy pairs = .ok pairs := by
  have hmerge : ∀ pair ∈ pairs, Tree.isMergeKey anchors pair.1 = false := by
    intro pair hpair
    obtain ⟨key, hkey⟩ := h pair hpair
    rw [hkey]
    rfl
  have hdefault : ∀ pair ∈ pairs, Tree.isDefaultKey anchors pair.1 = false := by
    intro pair hpair
    obtain ⟨key, hkey⟩ := h pair hpair
    rw [hkey]
    rfl
  have hmerging : pairs.filter (fun pair => Tree.isMergeKey anchors pair.1) = [] :=
    List.filter_eq_nil_iff.mpr fun pair hpair => by simp [hmerge pair hpair]
  have hown : pairs.filter (fun pair => !Tree.isMergeKey anchors pair.1) = pairs :=
    List.filter_eq_self.mpr fun pair hpair => by simp [hmerge pair hpair]
  have hkeys : pairs.map (fun pair => (Tree.asKey anchors pair.1, pair.2)) = pairs := by
    refine (List.map_congr_left fun pair hpair => ?_).trans (List.map_id pairs)
    rw [Tree.asKey, hdefault pair hpair, if_neg Bool.false_ne_true]
    rfl
  rw [Tree.mergedPairs]
  simp only [hmerging, hown, List.mapM_nil, hkeys]
  rfl

/-- Fields form nodes, which have trees, which have values; all their keys are texts. -/
theorem exists_trees_fields {fields : List (String × List Token)} {values : Fields Value}
    (h : List.Forall₂ DenotesField fields values) :
    ∃ ns ts,
      (∀ steps rest, 2 * (fieldsTokens fields).length < steps →
        Node.blockPairs Node.defaultHandles steps (fieldsTokens fields ++ .blockEnd :: rest)
          = .ok (ns, rest))
      ∧ (∀ anchors, Tree.ofPairs anchors ns = .ok (ts, anchors))
      ∧ TextKeys ts
      ∧ ∀ steps around level, (fieldsTokens fields).length ≤ steps →
          allOf (ts.map fun (key, v) => keyed (!isCollection around.anchors key) level
            (valueOf steps around level key) (valueOf steps around level v))
              = .ok (textEntries values) := by
  induction h with
  | nil =>
    refine ⟨[], [], fun steps rest hsteps => ?_, fun _ => rfl, nofun, fun _ _ _ _ => rfl⟩
    obtain ⟨steps, rfl⟩ : ∃ n, steps = n + 1 := ⟨steps - 1, by omega⟩
    rfl
  | @cons field value fields values hfield _ ih =>
    obtain @⟨key, content, v, hlooks, hcontent⟩ := hfield
    obtain ⟨n, t, hnode, htree, hvalue⟩ := hcontent.exists_tree
    obtain ⟨ns, ts, hnodes, htrees, hkeys, hvalues⟩ := ih
    have htokens : fieldsTokens ((key, content) :: fields)
        = fieldTokens key content ++ fieldsTokens fields := rfl
    have hlength : (fieldsTokens ((key, content) :: fields)).length
        = content.length + 3 + (fieldsTokens fields).length := by
      simp only [htokens, fieldTokens, List.length_append, List.length_cons]
    refine ⟨(.scalar {} true key, n) :: ns, (.scalar (tagStart ++ "str") key, t) :: ts,
      fun steps rest hsteps => ?_, fun anchors => ofPairs_field hlooks (htree anchors)
        (htrees anchors), List.forall_mem_cons.mpr ⟨⟨key, rfl⟩, hkeys⟩,
      fun steps around level hsteps => ?_⟩
    · obtain ⟨steps, rfl⟩ : ∃ n, steps = n + 3 := ⟨steps - 3, by omega⟩
      rw [htokens, List.append_assoc]
      exact blockPairs_field (hcontent.endsField _)
        (hnode (steps + 1) _ (by omega) fun _ => endsField_fieldsTokens fields rest)
        (hnodes (steps + 1) rest (by omega))
    · obtain ⟨steps, rfl⟩ : ∃ n, steps = n + 1 := ⟨steps - 1, by omega⟩
      rw [List.map_cons]
      dsimp only
      rw [keyed_field (hvalue (steps + 1) around level (by omega))]
      exact allOf_cons (hvalues (steps + 1) around level (by omega))

/-- The value of a mapping without an anchor, all keys of which are texts, consists of the values of
its pairs. -/
theorem valueOf_mapping {pairs : List (Tree × Tree)} (h : TextKeys pairs) (steps level : Nat)
    (around : Surroundings) :
    valueOf (steps + 2) around level (.mapping none (tagStart ++ "map") pairs)
      = ((allOf (pairs.map fun (key, v) => keyed (!isCollection around.anchors key) (level + 1)
          (valueOf (steps + 1) around (level + 1) key)
          (valueOf (steps + 1) around (level + 1) v))).map entriesOf).map ofEntries := by
  have hfree : (Tree.mapping none (tagStart ++ "map") pairs).isAmong around.above = false := rfl
  have htag : (Tree.mapping none (tagStart ++ "map") pairs).tag around.anchors
      = tagStart ++ "map" := rfl
  have hread : scalarReader? "map" = none := rfl
  have hmerged := h.mergedPairs around.anchors steps
    (Tree.mapping none (tagStart ++ "map") pairs).anchor?.toList
  rw [valueOf]
  simp only [hfree, htag, kindOf?_tag, hread, Bool.false_eq_true, if_false, collectionValue,
    mergedEntries, hmerged]
  rfl

/-- **A table**, when each of its fields denotes its value.  `hkeys` is what the reader asks of
nothing, but a repeated name would give another table. -/
theorem denotes_table {fields : List (String × List Token)} {values : Fields Value}
    (h : List.Forall₂ DenotesField fields values) (hkeys : (Fields.keys values).Nodup)
    (field : Bool) : Denotes field (tableTokens fields) (.table values) := by
  obtain ⟨ns, ts, hnodes, htrees, htexts, hvalues⟩ := exists_trees_fields h
  have htokens (rest : List Token) : tableTokens fields ++ rest
      = .mappingStart :: (fieldsTokens fields ++ .blockEnd :: rest) := by
    simp [tableTokens, fieldsTokens]
  have hlength : (tableTokens fields).length = (fieldsTokens fields).length + 2 := by
    simp [tableTokens, fieldsTokens]
  refine ⟨fun _ => rfl, fun _ _ => rfl, .mapping {} ns, .mapping none (tagStart ++ "map") ts,
    fun steps rest hsteps _ => ?_, fun anchors => ?_, fun steps around level hsteps => ?_⟩
  · obtain ⟨steps, rfl⟩ : ∃ n, steps = n + 1 := ⟨steps - 1, by omega⟩
    rw [htokens]
    simp only [Node.node, Node.properties, bind, Except.bind, if_true, hnodes steps rest (by omega)]
    rfl
  · simp only [Tree.ofNode, Tree.enterOpen, Tree.enter, bind, Except.bind, htrees]
    rfl
  · obtain ⟨steps, rfl⟩ : ∃ n, steps = n + 2 := ⟨steps - 2, by omega⟩
    rw [valueOf_mapping htexts, hvalues (steps + 1) around (level + 1) (by omega)]
    show Except.ok (ofEntries (entriesOf (textEntries values))) = _
    rw [entriesOf_textEntries hkeys, ofEntries_textEntries]

/-! ## Catalogues -/

/-- The fields of a parameter as they are written. -/
def parameterFields (p : Parameter) : Fields Value :=
  [("default_value", .text (reread p.defaultValue)), ("description", .text (reread p.description)),
    ("key", .text (reread p.key))]

/-- The fields of a rule as they are written. -/
def ruleFields (e : RuleEntry) : Fields Value :=
  [("description", .text (reread e.description)), ("name", .text (reread e.name)),
    ("parameters", .list (e.parameters.toList.map fun p => .table (parameterFields p)))]

/-- The fields of a catalogue as they are written. -/
def catalogueFields (c : Catalogue) : Fields Value :=
  [("rules", .list (c.sortedEntries.map fun e => .table (ruleFields e))), ("version", .int 1)]

theorem denotes_parameter (p : Parameter) (field : Bool) :
    Denotes field (parameterTokens p) (.table (parameterFields p)) := by
  refine denotes_table (.cons (.intro rfl (denotes_textToken _ _))
    (.cons (.intro rfl (denotes_textToken _ _)) (.cons (.intro rfl (denotes_textToken _ _)) .nil)))
    ?_ field
  simp [Fields.keys]

theorem denotes_rule (e : RuleEntry) (field : Bool) :
    Denotes field (ruleTokens e) (.table (ruleFields e)) := by
  have hparameters : List.Forall₂ (Denotes false) (e.parameters.toList.map parameterTokens)
      (e.parameters.toList.map fun p => .table (parameterFields p)) := by
    rw [List.forall₂_map_left_iff, List.forall₂_map_right_iff, List.forall₂_same]
    exact fun p _ => denotes_parameter p false
  refine denotes_table (.cons (.intro rfl (denotes_textToken _ _))
    (.cons (.intro rfl (denotes_textToken _ _))
      (.cons (.intro rfl (denotes_list hparameters)) .nil))) ?_ field
  simp [Fields.keys]

theorem denotes_catalogue (c : Catalogue) (field : Bool) :
    Denotes field (catalogueTokens c) (.table (catalogueFields c)) := by
  have hrules : List.Forall₂ (Denotes false) (c.sortedEntries.map ruleTokens)
      (c.sortedEntries.map fun e => .table (ruleFields e)) := by
    rw [List.forall₂_map_left_iff, List.forall₂_map_right_iff, List.forall₂_same]
    exact fun e _ => denotes_rule e false
  refine denotes_table (.cons (.intro rfl (denotes_list hrules))
    (.cons (.intro rfl (denotes_version _)) .nil)) ?_ field
  simp [Fields.keys]

/-- **A catalogue reads back as its fields**, each text as `reread` says; so whether it reads back
as itself is a question about single texts. -/
theorem parse_ofCatalogue (c : Catalogue) :
    parse (ofCatalogue c) = .ok (.table (catalogueFields c)) := by
  obtain ⟨n, t, hnode, htree, hvalue⟩ := (denotes_catalogue c false).exists_tree
  have hallowed := all_ofCatalogue c
  have htokens := ofText_ofCatalogue c
  have hroot : Node.ofTokens? (catalogueTokens c ++ [Token.textEnd]) = .ok (some n) := by
    have hread := hnode (2 * (catalogueTokens c ++ [Token.textEnd]).length + 2) [.textEnd]
      (by simp; omega) (by rintro ⟨⟩)
    show (do
      let found ← Node.node Node.defaultHandles true false
        (2 * (catalogueTokens c ++ [Token.textEnd]).length + 2)
        (catalogueTokens c ++ [Token.textEnd])
      Node.nothingFollows found.2
      return some found.1) = _
    rw [hread]
    rfl
  have hfinal := hvalue (((catalogueTokens c ++ [Token.textEnd]).length + 2)
      * ((catalogueTokens c ++ [Token.textEnd]).length + 2)) ⟨[], []⟩ 0 (by
    have hlength : (catalogueTokens c).length
        ≤ (catalogueTokens c ++ [Token.textEnd]).length + 2 := by
      rw [List.length_append]
      omega
    exact hlength.trans (Nat.le_mul_self _))
  rw [parse]
  simp only [hallowed, htokens, hroot, htree, hfinal, bind, Except.bind]
  rfl

end RuleCatalogue.Yaml
