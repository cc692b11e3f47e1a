import RuleCatalogue.Proofs.Yaml.Token
import RuleCatalogue.Yaml.Writer

/-!
# The tokens of a catalogue

What a catalogue is written as is cut into the tokens of two mappings around each other, with a list
in each.  A list says only once how its items follow each other: an item is read up to the line
behind it, and ends the blocks that begin to the right of that line.

## Main definitions

* `fieldTokens`, `listTokens`, `parameterTokens`, `ruleTokens`, `catalogueTokens`: the tokens of the
  parts of a catalogue.
* `ReadsItem`: the text behind the mark of an item is cut into its tokens, whatever follows.

## Design notes

The tokens of a mapping hold the end of its block.  Where the next line begins further to the left,
the ends of the blocks around it follow: `List.replicate j .blockEnd`.
-/

namespace RuleCatalogue.Yaml

/-! ## Tokens -/

/-- The tokens of a key and of what stands at it. -/
def fieldTokens (key : String) (content : List Token) : List Token :=
  .key :: .scalar true key :: .value :: content

/-- The tokens of a table. -/
def tableTokens (fields : List (String × List Token)) : List Token :=
  .mappingStart :: (fields.flatMap fun field => fieldTokens field.1 field.2) ++ [.blockEnd]

/-- The tokens of a list: its items behind their marks, or two brackets. -/
def listTokens (items : List (List Token)) : List Token :=
  if items.isEmpty then [.flowSequenceStart, .flowSequenceEnd]
  else items.flatMap fun item => .entry :: item

/-- The tokens of a parameter. -/
def parameterTokens (p : Parameter) : List Token :=
  tableTokens [("default_value", [textToken p.defaultValue]),
    ("description", [textToken p.description]), ("key", [textToken p.key])]

/-- The tokens of a rule. -/
def ruleTokens (e : RuleEntry) : List Token :=
  tableTokens [("description", [textToken e.description]), ("name", [textToken e.name]),
    ("parameters", listTokens (e.parameters.toList.map parameterTokens))]

/-- **The tokens of a catalogue**, without the end of its text. -/
def catalogueTokens (c : Catalogue) : List Token :=
  tableTokens [("rules", listTokens (c.sortedEntries.map ruleTokens)),
    ("version", [.scalar true "1"])]

/-! ## Lines -/

/-- A name with a text, and what follows its line. -/
def fieldText (mapping : Nat) (key value : String) (rest : List Char) : List Char :=
  key.toList ++ ':' :: (textChars mapping (mapping + key.length + 1) value.toList ++ '\n' :: rest)

theorem fieldLine_append (mapping : Nat) (lead : List Char) (key value : String)
    (rest : List Char) :
    fieldLine mapping lead key value ++ rest = lead ++ fieldText mapping key value rest := by
  simp [fieldLine, fieldText]

/-- A parameter behind the mark of its item. -/
def parameterText (p : Parameter) (rest : List Char) : List Char :=
  fieldText 4 "default_value" p.defaultValue (margin 4
    ++ fieldText 4 "description" p.description (margin 4 ++ fieldText 4 "key" p.key rest))

theorem parameterLines_append (p : Parameter) (rest : List Char) :
    parameterLines p ++ rest = margin 2 ++ '-' :: ' ' :: parameterText p rest := by
  rw [parameterLines, List.append_assoc, List.append_assoc, fieldLine_append, fieldLine_append,
    fieldLine_append]
  rfl

/-- What stands behind the name of a list and its colon. -/
def listText (items : List (List Char)) (rest : List Char) : List Char :=
  (if items.isEmpty then " []\n" else "\n").toList ++ (items.flatten ++ rest)

theorem atGap_listText (items : List (List Char)) (rest : List Char) :
    atGap (listText items rest) := by
  rw [listText]
  split <;> rfl

theorem listLines_append (lead : List Char) (key : String) (items : List (List Char))
    (rest : List Char) :
    listLines lead key items ++ rest = lead ++ (key.toList ++ ':' :: listText items rest) := by
  rw [listLines, listText]
  split <;> simp

/-- A rule behind the mark of its item. -/
def ruleText (e : RuleEntry) (rest : List Char) : List Char :=
  fieldText 2 "description" e.description (margin 2 ++ fieldText 2 "name" e.name (margin 2
    ++ ("parameters".toList ++ ':' :: listText (e.parameters.toList.map parameterLines) rest)))

theorem ruleLines_append (e : RuleEntry) (rest : List Char) :
    ruleLines e ++ rest = margin 0 ++ '-' :: ' ' :: ruleText e rest := by
  rw [ruleLines, List.append_assoc, List.append_assoc, fieldLine_append, fieldLine_append,
    listLines_append]
  rfl

/-- The last line of a catalogue. -/
def versionText : List Char :=
  "version".toList ++ ':' :: ' ' :: '1' :: '\n' :: []

theorem toList_ofCatalogue (c : Catalogue) :
    (ofCatalogue c).toList
      = "rules".toList
        ++ ':' :: listText (c.sortedEntries.map ruleLines) (margin 0 ++ versionText) := by
  rw [ofCatalogue, String.toList_ofList, listLines_append]
  rfl

namespace Scan

variable {s : Scan} {tokens : List Token} {rest : List Char} {i j : Nat}

/-- **A line begins** with a token, in so many blocks. -/
structure BeginsLine (i : Nat) (rest : List Char) : Prop where
  word : BeginsWord rest
  noMark : atDocumentMark (margin (2 * i) ++ rest) = false

theorem beginsLine_item (i : Nat) (rest : List Char) : BeginsLine i ('-' :: ' ' :: rest) where
  word c hc := by
    cases hc
    decide
  noMark := by
    cases i with
    | zero => rfl
    | succ i => exact atDocumentMark_margin (Nat.mul_pos Nat.two_pos i.succ_pos) _

theorem beginsLine_key {key : List Char} (hkey : ∀ c ∈ key, isKeyChar c) (hne : key ≠ []) (i : Nat)
    (rest : List Char) : BeginsLine i (key ++ rest) := by
  obtain ⟨c, key, rfl⟩ := List.exists_cons_of_ne_nil hne
  have hc := hkey c List.mem_cons_self
  have hordinary (d : Char) (hd : isKeyChar d = false) : c ≠ d := ne_of_isKeyChar hc hd
  refine ⟨fun d hd => ?_, ?_⟩
  · cases hd
    exact ⟨hordinary ' ' (by decide), (Bool.or_eq_false_iff.mp (isGap_of_isKeyChar hc)).2,
      hordinary '#' (by decide), hordinary '\uFEFF' (by decide)⟩
  · cases i with
    | zero => exact atDocumentMark_cons (hordinary '-' (by decide)) (hordinary '.' (by decide)) _
    | succ i => exact atDocumentMark_margin (Nat.mul_pos Nat.two_pos i.succ_pos) _

/-! ## Fields -/

/-- The keys of the tables that are written. -/
def fieldKeys : List String :=
  ["rules", "version", "description", "name", "parameters", "default_value", "key"]

/-- What a key must be for the reader to find its end. -/
theorem of_mem_fieldKeys {key : String} (h : key ∈ fieldKeys) :
    (∀ c ∈ key.toList, isKeyChar c) ∧ key.toList ≠ [] ∧ key.toList.length ≤ 1024 := by
  have hall : ∀ key ∈ fieldKeys, key.toList.all isKeyChar ∧ key.toList ≠ []
      ∧ key.toList.length ≤ 1024 := by decide
  exact ⟨List.all_eq_true.mp (hall key h).1, (hall key h).2⟩

theorem atGap_textChars (mapping column : Nat) (s rest : List Char) :
    atGap (textChars mapping column s ++ rest) := by
  rw [textChars]
  split <;> rfl

/-- A key and its colon, inside of so many blocks or at the beginning of the next one. -/
theorem exists_leads_fieldKey {key : String} {l : Nat} (hkey : key ∈ fieldKeys) (first : Bool)
    (hrest : atGap rest)
    (h : s.Ready (if first then l else l + 1) (2 * l) (key.toList ++ ':' :: rest) tokens) :
    ∃ count index line,
      s.Leads (behindColon (l + 1)
        ((fieldTokens key []).reverse ++ ((if first then [.mappingStart] else []) ++ tokens))
        count { rest, index, line, column := 2 * l + key.length + 1 }) := by
  obtain ⟨hchars, hne, hlength⟩ := of_mem_fieldKeys hkey
  have hleads := exists_leads_key hchars hne hlength first hrest h
  rwa [String.ofList_toList, String.length_toList] at hleads

/-- **A key and its text**, up to the next line.  `hroom` keeps the key and the margin within a
line, and `first` tells whether the field begins a mapping. -/
theorem exists_leads_field {key value : String} {l : Nat} (hl : i + j = l)
    (hkey : key ∈ fieldKeys) (hroom : 2 * l + 3 ≤ lineWidth)
    (hrest : BeginsLine i rest) (first : Bool)
    (h : s.Ready (if first then l else l + 1) (2 * l)
      (fieldText (2 * l) key value (margin (2 * i) ++ rest)) tokens) :
    ∃ next, s.Leads next
      ∧ next.Ready (i + 1) (2 * i) rest (List.replicate j .blockEnd
          ++ (fieldTokens key [textToken value]).reverse
          ++ ((if first then [.mappingStart] else []) ++ tokens)) := by
  subst hl
  obtain ⟨count, index, line, hleads⟩ :=
    exists_leads_fieldKey hkey first (atGap_textChars _ _ _ _) h
  obtain ⟨next, hnext, hready⟩ := exists_leads_text hroom hrest.word hrest.noMark _
    count index line _ (show 2 * (i + j) < 2 * (i + j) + key.length + 1 by omega)
  refine ⟨next, hleads.trans hnext, ?_⟩
  simpa [fieldTokens] using hready

/-! ## Lists -/

/-- **An item is read** up to the line behind it; `text` is what stands behind the mark of the item,
and the blocks that begin to the right of the next line end. -/
def ReadsItem (level : Nat) (text : List Char → List Char) (item : List Token) : Prop :=
  ∀ (s : Scan) (i j : Nat) (rest : List Char) (tokens : List Token),
    i + j = level → BeginsLine i rest →
    s.Ready (level + 1) (2 * level) ('-' :: ' ' :: text (margin (2 * i) ++ rest)) tokens →
    ∃ next, s.Leads next
      ∧ next.Ready (i + 1) (2 * i) rest (List.replicate j .blockEnd
          ++ (.entry :: item).reverse ++ tokens)

/-- The items of a list, one after another. -/
theorem exists_leads_items {α : Type} {lines : α → List Char} {text : α → List Char → List Char}
    {item : α → List Token} {l : Nat} (hl : i + j = l)
    (hlines : ∀ a rest, lines a ++ rest = margin (2 * l) ++ '-' :: ' ' :: text a rest)
    (hrest : BeginsLine i rest) {a : α} {more : List α}
    (hread : ∀ b ∈ a :: more, ReadsItem l (text b) (item b))
    (h : s.Ready (l + 1) (2 * l)
      ('-' :: ' ' :: text a ((more.map lines).flatten ++ (margin (2 * i) ++ rest))) tokens) :
    ∃ next, s.Leads next
      ∧ next.Ready (i + 1) (2 * i) rest
          (List.replicate j .blockEnd
          ++ (((a :: more).map item).flatMap fun item => .entry :: item).reverse ++ tokens) := by
  induction more generalizing a s tokens with
  | nil =>
    simpa using hread a List.mem_cons_self s i j rest tokens hl hrest h
  | cons b more ih =>
    have hnext : ((b :: more).map lines).flatten ++ (margin (2 * i) ++ rest)
        = margin (2 * l)
          ++ '-' :: ' ' :: text b ((more.map lines).flatten ++ (margin (2 * i) ++ rest)) := by
      rw [← hlines, List.map_cons, List.flatten_cons, List.append_assoc]
    rw [hnext] at h
    obtain ⟨middle, hmiddle, hready⟩ := hread a List.mem_cons_self s l 0 _ tokens (Nat.add_zero l)
      (beginsLine_item l _) h
    obtain ⟨final, hfinal, hready'⟩ := ih (fun b hb => hread b (List.mem_cons_of_mem a hb)) hready
    refine ⟨final, hmiddle.trans hfinal, ?_⟩
    simpa using hready'

/-- **A list behind its key**, up to the next line, by induction on its items: `hread` says that
each item is read wherever it stands. -/
theorem exists_leads_list {α : Type} {lines : α → List Char} {text : α → List Char → List Char}
    {item : α → List Token} {l : Nat} (hl : i + j = l)
    (hlines : ∀ a rest, lines a ++ rest = margin (2 * l) ++ '-' :: ' ' :: text a rest)
    (hrest : BeginsLine i rest) {items : List α}
    (hread : ∀ a ∈ items, ReadsItem l (text a) (item a)) (tokens : List Token)
    (count index line : Nat) {column : Nat} (hcolumn : 2 * l < column) :
    ∃ next, (behindColon (l + 1) tokens count
        { rest := listText (items.map lines) (margin (2 * i) ++ rest), index, line, column }).Leads
          next
      ∧ next.Ready (i + 1) (2 * i) rest
          (List.replicate j .blockEnd ++ (listTokens (items.map item)).reverse ++ tokens) := by
  cases items with
  | nil =>
    subst hl
    have hbrackets := exists_leads_brackets hrest.word tokens count index line hcolumn
    simpa [listTokens, listText] using hbrackets
  | cons a more =>
    have htext : listText ((a :: more).map lines) (margin (2 * i) ++ rest)
        = '\n' :: (margin (2 * l)
          ++ '-' :: ' ' :: text a ((more.map lines).flatten ++ (margin (2 * i) ++ rest))) := by
      simp [listText, ← hlines]
    rw [htext]
    exact exists_leads_items hl hlines hrest hread
      (ready_of_line (beginsLine_item l _).word l 0 tokens count index line column false)

/-! ## Parameters, rules and catalogues -/

theorem readsItem_parameter (p : Parameter) :
    ReadsItem 1 (parameterText p) (parameterTokens p) := by
  intro s i j rest tokens hij hrest hs
  have hroom : 2 * 2 + 3 ≤ lineWidth := by decide
  have hkey (key : String) (hkey : key ∈ fieldKeys) (value : String) (rest : List Char) :
      BeginsLine 2 (fieldText 4 key value rest) :=
    beginsLine_key (of_mem_fieldKeys hkey).1 (of_mem_fieldKeys hkey).2.1 2 _
  obtain ⟨behindMark, hmark, hready⟩ :=
    exists_leads_entry (hkey "default_value" (by decide) _ _).word hs
  obtain ⟨behindDefault, hdefault, hready⟩ :=
    exists_leads_field (Nat.add_zero 2) (by decide) hroom (hkey "description" (by decide) _ _) true
      hready
  obtain ⟨behindDescription, hdescription, hready⟩ :=
    exists_leads_field (Nat.add_zero 2) (by decide) hroom (hkey "key" (by decide) _ _) false hready
  obtain ⟨final, hfinal, hready⟩ := exists_leads_field (show i + (j + 1) = 2 by omega) (by decide)
    hroom hrest false hready
  refine ⟨final, hmark.trans (hdefault.trans (hdescription.trans hfinal)), ?_⟩
  simpa [parameterTokens, tableTokens, List.replicate_succ'] using hready

theorem readsItem_rule (e : RuleEntry) :
    ReadsItem 0 (ruleText e) (ruleTokens e) := by
  intro s i j rest tokens hij hrest hs
  have hroom : 2 * 1 + 3 ≤ lineWidth := by decide
  have hkey (key : String) (hkey : key ∈ fieldKeys) (rest : List Char) :
      BeginsLine 1 (key.toList ++ rest) :=
    beginsLine_key (of_mem_fieldKeys hkey).1 (of_mem_fieldKeys hkey).2.1 1 _
  obtain ⟨behindMark, hmark, hready⟩ :=
    exists_leads_entry (hkey "description" (by decide) _).word hs
  obtain ⟨behindDescription, hdescription, hready⟩ :=
    exists_leads_field (Nat.add_zero 1) (by decide) hroom (hkey "name" (by decide) _) true hready
  obtain ⟨behindName, hname, hready⟩ := exists_leads_field (Nat.add_zero 1) (by decide)
    hroom (hkey "parameters" (by decide) _) false hready
  obtain ⟨count, index, line, hcolon⟩ := exists_leads_fieldKey (by decide) false
    (atGap_listText _ _) hready
  obtain ⟨final, hfinal, hready⟩ := exists_leads_list (show i + (j + 1) = 1 by omega)
    parameterLines_append hrest (fun p _ => readsItem_parameter p) _ count index line
    (show 2 * 1 < 2 * 1 + "parameters".length + 1 by omega)
  refine ⟨final, hmark.trans (hdescription.trans (hname.trans (hcolon.trans hfinal))), ?_⟩
  simpa [ruleTokens, tableTokens, fieldTokens, List.replicate_succ'] using hready

theorem fitsPlain_one : fitsPlain ['1'] := by
  rw [fitsPlain, beginsWithIndicator]
  decide

theorem scans_catalogueTokens (c : Catalogue) :
    Scans { cursor := { rest := (ofCatalogue c).toList } }
      (catalogueTokens c ++ [Token.textEnd]).reverse := by
  have hkey (key : String) (hkey : key ∈ fieldKeys) (rest : List Char) :
      BeginsLine 0 (key.toList ++ rest) :=
    beginsLine_key (of_mem_fieldKeys hkey).1 (of_mem_fieldKeys hkey).2.1 0 _
  have hversion : BeginsLine 0 versionText := hkey "version" (by decide) _
  have hstart := ready_start (hkey "rules" (by decide) (':' :: listText
    (c.sortedEntries.map ruleLines) (margin 0 ++ versionText))).word
  obtain ⟨count, index, line, hcolon⟩ := exists_leads_fieldKey (l := 0) (by decide) true
    (atGap_listText _ _) hstart
  obtain ⟨behindRules, hrules, hready⟩ := exists_leads_list (Nat.add_zero 0) ruleLines_append
    hversion (fun e _ => readsItem_rule e) _ count index line
    (show 2 * 0 < 2 * 0 + "rules".length + 1 by decide)
  obtain ⟨count, index, line, hcolon'⟩ := exists_leads_fieldKey (by decide) false
    (show atGap (' ' :: '1' :: '\n' :: []) by decide) hready
  have hend : BeginsWord [] := fun _ hc => nomatch hc
  obtain ⟨final, hfinal, hready⟩ := exists_leads_plain (i := 0) (j := 0) fitsPlain_one (by decide)
    hend rfl _ count index line 0 (show 2 * 0 < 2 * 0 + "version".length + 1 by decide)
  have hscans := hcolon.trans (hrules.trans (hcolon'.trans hfinal)) _ (scans_of_end hready)
  rw [toList_ofCatalogue]
  simpa [catalogueTokens, tableTokens, fieldTokens] using hscans

end Scan

/-- **A catalogue is cut into its tokens**, whatever its texts are: each is read back by the style
that the writer chose for it. -/
theorem ofText_ofCatalogue (c : Catalogue) :
    Token.ofText (ofCatalogue c).toList = catalogueTokens c ++ [Token.textEnd] := by
  rw [Token.ofText, Scan.scans_catalogueTokens c _ (Nat.lt_succ_self _), List.reverse_reverse]

end RuleCatalogue.Yaml
