import RuleCatalogue.Proofs.Yaml.Causes
import RuleCatalogue.Yaml.Node

/-!
# Why tokens are no document

The grammar of nodes stops where a token stands that does not go on as it asks.  If the text could
not be cut further there, the error is that of the text; otherwise the text is malformed
(`Node.reads_unexpected`).

Tags stand in front of nodes, and a tag that is written stands for an exclamation mark
(`Node.Fits`).  This is kept for collections as well as for scalars: a mapping with the tag of a
scalar is read as one, so what its tag asks for may be missing too.

The seven readers of nodes call each other, each time with one step less.  What is known of them is
therefore one statement, `Node.ReadsWithin`, with one lemma for each reader that goes from some
number of steps to the next.

## Main definitions

* `Node.Fits`: what is known of the tags of a node.
* `Node.ReadsWithin`: what is known of the seven readers of nodes, which call each other.

## Main results

* `Node.ReadsWithin.node_succ` and its six siblings: one step more.
* `Node.readsWithin`: any number of steps.
* `Node.reads_ofTokens?`: the node of the only document.
-/

namespace RuleCatalogue.Yaml

variable {α : Type} {p : α → Prop} {text : List Char}

/-! ## Nodes -/

namespace Node

/-- **What is known of a node**: written tags stand for exclamation marks, in all its parts. -/
inductive Fits (text : List Char) : Node → Prop
  | link (name : String) : Fits text (.alias name)
  | scalar (properties : Properties) (plain : Bool) (s : String)
      (h : properties.tag ≠ none → '!' ∈ text) : Fits text (.scalar properties plain s)
  | sequence (properties : Properties) {items : List Node}
      (h : properties.tag ≠ none → '!' ∈ text) (all : ∀ n ∈ items, Fits text n) :
      Fits text (.sequence properties items)
  | mapping (properties : Properties) {pairs : List (Node × Node)}
      (h : properties.tag ≠ none → '!' ∈ text) (keys : ∀ pair ∈ pairs, Fits text pair.1)
      (values : ∀ pair ∈ pairs, Fits text pair.2) : Fits text (.mapping properties pairs)

/-- All tokens fit. -/
def AllFit (text : List Char) (ts : List Token) : Prop :=
  ∀ t ∈ ts, t.Fits text

variable {ts : List Token} {t : Token}

theorem AllFit.tail (h : AllFit text (t :: ts)) : AllFit text ts :=
  fun other hother => h other (List.mem_cons_of_mem t hother)

theorem fits_absent : Fits text absent :=
  .scalar {} true "" fun h => absurd rfl h

theorem reads_completeTag (handles : Handles) (handle : Option String) (suffix : String) :
    Reads text (fun _ => True) (completeTag handles handle suffix) := by
  unfold completeTag
  split
  · exact trivial
  · split
    · exact trivial
    · exact reads_malformed

/-- The error of the text is found where the tokens end. -/
theorem reads_unexpected (h : AllFit text ts) : Reads text p (unexpected ts) := by
  unfold unexpected
  split
  · next e rest => exact h (.failure e) List.mem_cons_self
  · exact reads_malformed

/-- **What stands in front of a node**: its anchor and its tag, in either order.  A tag can only be
there if the text has its mark. -/
theorem reads_properties (handles : Handles) (h : AllFit text ts) :
    Reads text (fun read => (read.1.tag ≠ none → '!' ∈ text) ∧ AllFit text read.2)
      (properties handles ts) := by
  unfold properties
  split
  · next a handle suffix rest =>
    have hmark : '!' ∈ text := h.tail (.tag handle suffix) List.mem_cons_self
    exact (reads_completeTag handles handle suffix).bind fun _ _ => ⟨fun _ => hmark, h.tail.tail⟩
  · exact ⟨fun hnone => absurd rfl hnone, h.tail⟩
  · next handle suffix a rest =>
    have hmark : '!' ∈ text := h (.tag handle suffix) List.mem_cons_self
    exact (reads_completeTag handles handle suffix).bind fun _ _ => ⟨fun _ => hmark, h.tail.tail⟩
  · next handle suffix rest _ =>
    have hmark : '!' ∈ text := h (.tag handle suffix) List.mem_cons_self
    exact (reads_completeTag handles handle suffix).bind fun _ _ => ⟨fun _ => hmark, h.tail⟩
  · exact ⟨fun hnone => absurd rfl hnone, h⟩

/-- What is read from tokens satisfies `q`, and the other tokens fit. -/
abbrev Gives (text : List Char) (q : α → Prop) (result : Except ReadError (α × List Token)) :
    Prop :=
  Reads text (fun read => q read.1 ∧ AllFit text read.2) result

/-- Several nodes fit. -/
abbrev ItemsFit (text : List Char) (items : List Node) : Prop :=
  ∀ n ∈ items, n.Fits text

/-- Several pairs of nodes fit. -/
abbrev PairsFit (text : List Char) (pairs : List (Node × Node)) : Prop :=
  ∀ pair ∈ pairs, pair.1.Fits text ∧ pair.2.Fits text

theorem PairsFit.mapping {pairs : List (Node × Node)} (h : PairsFit text pairs)
    {properties : Properties} (htag : properties.tag ≠ none → '!' ∈ text) :
    Fits text (.mapping properties pairs) :=
  .mapping properties htag (fun pair hpair => (h pair hpair).1) fun pair hpair => (h pair hpair).2

/-- What is known of the readers of nodes that take so many steps. -/
structure ReadsWithin (text : List Char) (handles : Handles) (steps : Nat) : Prop where
  node (block indentless : Bool) {ts : List Token} (h : AllFit text ts) :
    Gives text (Fits text) (node handles block indentless steps ts)
  blockItems {ts : List Token} (h : AllFit text ts) :
    Gives text (ItemsFit text) (blockItems handles steps ts)
  looseItems {ts : List Token} (h : AllFit text ts) :
    Gives text (ItemsFit text) (looseItems handles steps ts)
  blockPairs {ts : List Token} (h : AllFit text ts) :
    Gives text (PairsFit text) (blockPairs handles steps ts)
  blockValue {key : Node} (hkey : key.Fits text) {ts : List Token} (h : AllFit text ts) :
    Gives text (PairsFit text) (blockValue handles steps key ts)
  flowItems (first : Bool) {ts : List Token} (h : AllFit text ts) :
    Gives text (ItemsFit text) (flowItems handles first steps ts)
  flowPairs (first : Bool) {ts : List Token} (h : AllFit text ts) :
    Gives text (PairsFit text) (flowPairs handles first steps ts)

theorem readsWithin_zero (handles : Handles) : ReadsWithin text handles 0 where
  node _ _ _ _ := by rw [Node.node]; exact reads_malformed
  blockItems _ := by rw [Node.blockItems]; exact reads_malformed
  looseItems _ := by rw [Node.looseItems]; exact reads_malformed
  blockPairs _ := by rw [Node.blockPairs]; exact reads_malformed
  blockValue _ _ _ := by rw [Node.blockValue]; exact reads_malformed
  flowItems _ _ _ := by rw [Node.flowItems]; exact reads_malformed
  flowPairs _ _ _ := by rw [Node.flowPairs]; exact reads_malformed

/-- A node that may be missing, and what follows it. -/
theorem gives_absent_or {q : α → Prop} {missing : Bool} {ts : List Token}
    {read : Except ReadError (Node × List Token)}
    {next : Node × List Token → Except ReadError (α × List Token)} (h : AllFit text ts)
    (hread : Gives text (Fits text) read)
    (hnext : ∀ n rest, n.Fits text → AllFit text rest → Gives text q (next (n, rest))) :
    Gives text q (if missing then pure (absent, ts) >>= next else read >>= next) :=
  .ite (fun _ => hnext absent ts fits_absent h) fun _ =>
    hread.bind fun (n, rest) ⟨hn, hrest⟩ => hnext n rest hn hrest

/-- What stands between brackets behind a comma, which the first part does not need. -/
theorem gives_behindComma {q : α → Prop} {first : Bool} {ts : List Token}
    {next : List Token → Except ReadError (α × List Token)}
    (hnext : ∀ ahead, AllFit text ahead → Gives text q (next ahead)) :
    AllFit text ts → Gives text q
      (if first then pure ts >>= next
      else
        match ts with
        | .flowEntry :: rest => pure rest >>= next
        | _ => unexpected ts >>= next) := by
  intro h
  refine .ite (fun _ => hnext ts h) fun _ => ?_
  split
  · exact hnext _ h.tail
  · exact (reads_unexpected (p := AllFit text) h).bind fun ahead hahead => hnext ahead hahead

/-! ### One step more

Whatever a reader calls takes a step less, so each of the seven needs what is known of all of them
with fewer steps, `ih`, and nothing else. -/

section Step

variable {handles : Handles} {steps : Nat}

/-- A tag or an anchor may stand without a node, wherever none can begin. -/
theorem gives_bare {properties : Properties} (htag : properties.tag ≠ none → '!' ∈ text)
    (h : AllFit text ts) : Gives text (Fits text) (node.bare properties ts) := by
  unfold node.bare
  split
  · exact ⟨.scalar properties true "" htag, h⟩
  · exact reads_unexpected h

/-- The pair of a key and its value, and the pairs behind it. -/
theorem gives_pair {key v : Node} (hkey : key.Fits text) (hv : v.Fits text)
    {read : Except ReadError (List (Node × Node) × List Token)}
    (hread : Gives text (PairsFit text) read) :
    Gives text (PairsFit text) (read >>= fun read => pure ((key, v) :: read.1, read.2)) :=
  hread.bind fun _ ⟨hpairs, hrest⟩ => ⟨List.forall_mem_cons.mpr ⟨⟨hkey, hv⟩, hpairs⟩, hrest⟩

/-- An item, and the items behind it. -/
theorem gives_item {n : Node} (hn : n.Fits text)
    {read : Except ReadError (List Node × List Token)} (hread : Gives text (ItemsFit text) read) :
    Gives text (ItemsFit text) (read >>= fun read => pure (n :: read.1, read.2)) :=
  hread.bind fun _ ⟨hitems, hrest⟩ => ⟨List.forall_mem_cons.mpr ⟨hn, hitems⟩, hrest⟩

/-- A key between brackets makes a mapping of one pair. -/
theorem fits_flowPair {key v : Node} (hkey : key.Fits text) (hv : v.Fits text) :
    Fits text (.mapping {} [(key, v)]) :=
  PairsFit.mapping (List.forall_mem_singleton.mpr ⟨hkey, hv⟩) fun h => absurd rfl h

namespace ReadsWithin

variable (ih : ReadsWithin text handles steps)

include ih

theorem node_succ (block indentless : Bool) (h : AllFit text ts) :
    Gives text (Fits text) (Node.node handles block indentless (steps + 1) ts) := by
  unfold Node.node
  split
  · exact ⟨.link _, h.tail⟩
  · refine (reads_properties handles h).bind fun (properties, ahead) ⟨htag, hahead⟩ => ?_
    dsimp only at htag hahead ⊢
    -- What comes next says what the node is; the three kinds of blocks need a place for blocks.
    split
    · exact ⟨.scalar properties _ _ htag, hahead.tail⟩
    · exact (ih.flowItems true hahead.tail).bind fun _ ⟨hitems, hrest⟩ =>
        ⟨.sequence properties htag hitems, hrest⟩
    · exact (ih.flowPairs true hahead.tail).bind fun _ ⟨hpairs, hrest⟩ =>
        ⟨hpairs.mapping htag, hrest⟩
    · refine .ite (fun _ => ?_) fun _ => gives_bare htag hahead
      exact (ih.looseItems hahead).bind fun _ ⟨hitems, hrest⟩ =>
        ⟨.sequence properties htag hitems, hrest⟩
    · refine .ite (fun _ => ?_) fun _ => gives_bare htag hahead
      exact (ih.blockItems hahead.tail).bind fun _ ⟨hitems, hrest⟩ =>
        ⟨.sequence properties htag hitems, hrest⟩
    · refine .ite (fun _ => ?_) fun _ => gives_bare htag hahead
      exact (ih.blockPairs hahead.tail).bind fun _ ⟨hpairs, hrest⟩ => ⟨hpairs.mapping htag, hrest⟩
    · exact gives_bare htag hahead

theorem blockItems_succ (h : AllFit text ts) :
    Gives text (ItemsFit text) (Node.blockItems handles (steps + 1) ts) := by
  unfold Node.blockItems
  split
  · exact gives_absent_or h.tail (ih.node true false h.tail) fun _ _ hitem hrest =>
      gives_item hitem (ih.blockItems hrest)
  · exact ⟨List.forall_mem_nil _, h.tail⟩
  · exact reads_unexpected h

theorem looseItems_succ (h : AllFit text ts) :
    Gives text (ItemsFit text) (Node.looseItems handles (steps + 1) ts) := by
  unfold Node.looseItems
  split
  · exact gives_absent_or h.tail (ih.node true false h.tail) fun _ _ hitem hrest =>
      gives_item hitem (ih.looseItems hrest)
  · exact ⟨List.forall_mem_nil _, h⟩

theorem blockPairs_succ (h : AllFit text ts) :
    Gives text (PairsFit text) (Node.blockPairs handles (steps + 1) ts) := by
  unfold Node.blockPairs
  split
  · exact gives_absent_or h.tail (ih.node true true h.tail) fun _ _ hkey hrest =>
      ih.blockValue hkey hrest
  · exact ⟨List.forall_mem_nil _, h.tail⟩
  · exact reads_unexpected h

theorem blockValue_succ {key : Node} (hkey : key.Fits text) (h : AllFit text ts) :
    Gives text (PairsFit text) (Node.blockValue handles (steps + 1) key ts) := by
  unfold Node.blockValue
  dsimp only
  split
  · exact gives_absent_or h.tail (ih.node true true h.tail) fun _ _ hv hrest =>
      gives_pair hkey hv (ih.blockPairs hrest)
  · exact gives_pair hkey fits_absent (ih.blockPairs h)

theorem flowItems_succ (first : Bool) (h : AllFit text ts) :
    Gives text (ItemsFit text) (Node.flowItems handles first (steps + 1) ts) := by
  have hitem {key v : Node} {rest : List Token} (hkey : key.Fits text) (hv : v.Fits text)
      (hrest : AllFit text rest) :=
    gives_item (fits_flowPair hkey hv) (ih.flowItems false hrest)
  unfold Node.flowItems
  split
  · exact ⟨List.forall_mem_nil _, h.tail⟩
  · refine gives_behindComma (fun ahead hahead => ?_) h
    dsimp only
    split
    · exact ⟨List.forall_mem_nil _, hahead.tail⟩
    · refine gives_absent_or hahead.tail (ih.node false false hahead.tail)
        fun key rest hkey hrest => ?_
      dsimp only
      split
      · exact gives_absent_or hrest.tail (ih.node false false hrest.tail)
          fun v final hv hfinal => hitem hkey hv hfinal
      · exact hitem hkey fits_absent hrest
    · exact (ih.node false false hahead).bind fun (item, rest) ⟨hn, hrest⟩ =>
        gives_item hn (ih.flowItems false hrest)

theorem flowPairs_succ (first : Bool) (h : AllFit text ts) :
    Gives text (PairsFit text) (Node.flowPairs handles first (steps + 1) ts) := by
  have hpair {key v : Node} {rest : List Token} (hkey : key.Fits text) (hv : v.Fits text)
      (hrest : AllFit text rest) := gives_pair hkey hv (ih.flowPairs false hrest)
  unfold Node.flowPairs
  split
  · exact ⟨List.forall_mem_nil _, h.tail⟩
  · refine gives_behindComma (fun ahead hahead => ?_) h
    dsimp only
    split
    · exact ⟨List.forall_mem_nil _, hahead.tail⟩
    · refine gives_absent_or hahead.tail (ih.node false false hahead.tail)
        fun key rest hkey hrest => ?_
      dsimp only
      split
      · exact gives_absent_or hrest.tail (ih.node false false hrest.tail)
          fun v final hv hfinal => hpair hkey hv hfinal
      · exact hpair hkey fits_absent hrest
    · exact (ih.node false false hahead).bind fun (key, rest) ⟨hkey, hrest⟩ =>
        hpair hkey fits_absent hrest

theorem succ : ReadsWithin text handles (steps + 1) where
  node block indentless _ h := ih.node_succ block indentless h
  blockItems h := ih.blockItems_succ h
  looseItems h := ih.looseItems_succ h
  blockPairs h := ih.blockPairs_succ h
  blockValue hkey _ h := ih.blockValue_succ hkey h
  flowItems first _ h := ih.flowItems_succ first h
  flowPairs first _ h := ih.flowPairs_succ first h

end ReadsWithin

end Step

/-- **The seven readers of nodes**, with any number of steps.  They call one another, so the
induction on the steps is over all of them at once. -/
theorem readsWithin (handles : Handles) (steps : Nat) : ReadsWithin text handles steps := by
  induction steps with
  | zero => exact readsWithin_zero handles
  | succ steps ih => exact ih.succ

/-! ### Documents -/

theorem reads_directives (h : AllFit text ts) (version : Bool) (handles : Handles) :
    Reads text (fun read => AllFit text read.2) (directives version handles ts) := by
  induction ts generalizing version handles with
  | nil => exact h
  | cons t rest ih =>
    unfold directives
    split
    · next heq =>
      obtain ⟨-, rfl⟩ := List.cons.inj heq
      exact .ite (fun _ => reads_malformed) fun _ => ih h.tail true handles
    · next heq =>
      obtain ⟨-, rfl⟩ := List.cons.inj heq
      exact .ite (fun _ => reads_malformed) fun _ => ih h.tail version _
    · next heq =>
      obtain ⟨-, rfl⟩ := List.cons.inj heq
      exact ih h.tail version handles
    · exact h

theorem reads_nothingFollows (h : AllFit text ts) :
    Reads text (fun _ => True) (nothingFollows ts) := by
  induction ts with
  | nil => exact reads_malformed
  | cons t rest ih =>
    unfold nothingFollows
    split
    · next heq =>
      obtain ⟨-, rfl⟩ := List.cons.inj heq
      exact ih h.tail
    · exact trivial
    · exact reads_unexpected h

/-- **The node of the only document**: a text of none has no node, and one of several is malformed.
-/
theorem reads_ofTokens? (h : AllFit text ts) :
    Reads text (fun root? => ∀ root ∈ root?, Fits text root) (ofTokens? ts) := by
  have hroot {n : Node} {rest : List Token} (hn : n.Fits text) (hrest : AllFit text rest) :
      Reads text (fun root? => ∀ root ∈ root?, Fits text root)
        (nothingFollows rest >>= fun _ => pure (some n)) :=
    (reads_nothingFollows hrest).bind fun _ _ root hmem => Option.some.inj hmem ▸ hn
  have hexplicit (steps : Nat) : Reads text (fun root? => ∀ root ∈ root?, Fits text root)
      (ofTokens?.explicit steps ts) := by
    refine (reads_directives h false []).bind fun (given, rest) hrest => ?_
    dsimp only at hrest ⊢
    split
    · refine .ite (fun _ => hroot fits_absent hrest.tail) fun _ => ?_
      exact ((readsWithin _ steps).node true false hrest.tail).bind fun (n, rest) ⟨hn, hrest⟩ =>
        hroot hn hrest
    · exact reads_unexpected hrest
  unfold ofTokens?
  dsimp only
  split
  · exact fun root hmem => nomatch hmem
  · exact hexplicit _
  · exact hexplicit _
  · exact ((readsWithin _ _).node true false h).bind fun (n, rest) ⟨hn, hrest⟩ => hroot hn hrest

end Node

end RuleCatalogue.Yaml
