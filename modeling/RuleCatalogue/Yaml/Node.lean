import RuleCatalogue.Yaml.Token

/-!
# The node of a document

Tokens form a tree: scalars, sequences and mappings, each of which may carry a tag and an anchor,
and aliases, which stand for the node of their anchor.  A text holds one document at most.

The functions below follow the grammar of blocks and of brackets.  Each takes what it can from the
beginning of the tokens and returns the others.
-/

namespace RuleCatalogue.Yaml

/-- **What a node carries besides its content.**  A tag is complete here; `!` means that the content
decides. -/
structure Properties where
  anchor : Option String := none
  tag : Option String := none
deriving DecidableEq, Repr

/-- **A node as it is written.**  A scalar is plain if it is not quoted, and nothing but its tag
says otherwise; a scalar that is not written at all is plain and empty. -/
inductive Node
  | alias (name : String)
  | scalar (properties : Properties) (plain : Bool) (text : String)
  | sequence (properties : Properties) (items : List Node)
  | mapping (properties : Properties) (pairs : List (Node × Node))
deriving Inhabited

namespace Node

/-- The node of a place where nothing is written. -/
def absent : Node := .scalar {} true ""

/-- The beginnings that tag handles stand for. -/
abbrev Handles := List (String × String)

/-- The handles that every document has. -/
def defaultHandles : Handles :=
  [("!", "!"), ("!!", "tag:yaml.org,2002:")]

/-- A tag with its handle replaced. -/
def completeTag (handles : Handles) (handle : Option String) (suffix : String) :
    Except ReadError String :=
  match handle with
  | none => .ok suffix
  | some h =>
      match handles.lookup h with
      | some start => .ok (start ++ suffix)
      | none => malformed

/-- The anchor and the tag in front of a node, in either order. -/
def properties (handles : Handles) : List Token → Except ReadError (Properties × List Token)
  | .anchor a :: .tag handle suffix :: rest => do
      return (⟨some a, some (← completeTag handles handle suffix)⟩, rest)
  | .anchor a :: rest => .ok (⟨some a, none⟩, rest)
  | .tag handle suffix :: .anchor a :: rest => do
      return (⟨some a, some (← completeTag handles handle suffix)⟩, rest)
  | .tag handle suffix :: rest => do
      return (⟨none, some (← completeTag handles handle suffix)⟩, rest)
  | ts => .ok ({}, ts)

/-- The error where the tokens do not go on as the grammar asks: that of the text, if it could not
be cut further. -/
def unexpected {α : Type} : List Token → Except ReadError α
  | .failure e :: _ => .error e
  | _ => malformed

/-- Whether an item may be missing before this token in a block sequence. -/
def endsItem : List Token → Bool
  | .entry :: _ => true
  | .blockEnd :: _ => true
  | _ => false

/-- Whether a key or a value may be missing before this token in a block mapping. -/
def endsField : List Token → Bool
  | .key :: _ => true
  | .value :: _ => true
  | .blockEnd :: _ => true
  | _ => false

/-- Whether a key may be missing before this token between brackets. -/
def endsFlowKey : List Token → Bool
  | .value :: _ => true
  | .flowEntry :: _ => true
  | .flowSequenceEnd :: _ => true
  | .flowMappingEnd :: _ => true
  | _ => false

/-- Whether a value may be missing before this token between brackets. -/
def endsFlowValue : List Token → Bool
  | .flowEntry :: _ => true
  | .flowSequenceEnd :: _ => true
  | .flowMappingEnd :: _ => true
  | _ => false

mutual

/-- A node.  `block` allows blocks, and `indentless` a sequence whose items stand in the column of
the mapping around it. -/
def node (handles : Handles) (block indentless : Bool) :
    Nat → List Token → Except ReadError (Node × List Token)
  | 0, _ => malformed
  | steps + 1, ts =>
      match ts with
      | .alias name :: rest => .ok (.alias name, rest)
      | _ => do
          let (props, ahead) ← properties handles ts
          match ahead with
          | .scalar plain text :: rest => return (.scalar props plain text, rest)
          | .flowSequenceStart :: rest => do
              let (items, rest) ← flowItems handles true steps rest
              return (.sequence props items, rest)
          | .flowMappingStart :: rest => do
              let (pairs, rest) ← flowPairs handles true steps rest
              return (.mapping props pairs, rest)
          | .entry :: _ =>
              if indentless then do
                let (items, rest) ← looseItems handles steps ahead
                return (.sequence props items, rest)
              else bare props ahead
          | .sequenceStart :: rest =>
              if block then do
                let (items, rest) ← blockItems handles steps rest
                return (.sequence props items, rest)
              else bare props ahead
          | .mappingStart :: rest =>
              if block then do
                let (pairs, rest) ← blockPairs handles steps rest
                return (.mapping props pairs, rest)
              else bare props ahead
          | _ => bare props ahead
where
  /-- Properties may stand without a node; it is empty then. -/
  bare (props : Properties) (ts : List Token) : Except ReadError (Node × List Token) :=
    if props.anchor.isSome || props.tag.isSome then .ok (.scalar props true "", ts)
    else unexpected ts

/-- The items of a block sequence up to its end. -/
def blockItems (handles : Handles) : Nat → List Token → Except ReadError (List Node × List Token)
  | 0, _ => malformed
  | steps + 1, ts =>
      match ts with
      | .entry :: rest => do
          let (item, rest) ←
            if endsItem rest then pure (absent, rest) else node handles true false steps rest
          let (items, rest) ← blockItems handles steps rest
          return (item :: items, rest)
      | .blockEnd :: rest => .ok ([], rest)
      | _ => unexpected ts

/-- The items of a sequence in the column of the mapping around it. -/
def looseItems (handles : Handles) : Nat → List Token → Except ReadError (List Node × List Token)
  | 0, _ => malformed
  | steps + 1, ts =>
      match ts with
      | .entry :: rest => do
          let (item, rest) ←
            if endsItem rest || endsField rest then pure (absent, rest)
            else node handles true false steps rest
          let (items, rest) ← looseItems handles steps rest
          return (item :: items, rest)
      | _ => .ok ([], ts)

/-- The pairs of a block mapping up to its end. -/
def blockPairs (handles : Handles) :
    Nat → List Token → Except ReadError (List (Node × Node) × List Token)
  | 0, _ => malformed
  | steps + 1, ts =>
      match ts with
      | .key :: rest => do
          let (key, rest) ←
            if endsField rest then pure (absent, rest) else node handles true true steps rest
          blockValue handles steps key rest
      | .blockEnd :: rest => .ok ([], rest)
      | _ => unexpected ts

/-- The value behind a key of a block mapping, and the pairs after it. -/
def blockValue (handles : Handles) :
    Nat → Node → List Token → Except ReadError (List (Node × Node) × List Token)
  | 0, _, _ => malformed
  | steps + 1, key, ts => do
      let (v, rest) ←
        match ts with
        | .value :: rest =>
            if endsField rest then pure (absent, rest) else node handles true true steps rest
        | _ => pure (absent, ts)
      let (pairs, rest) ← blockPairs handles steps rest
      return ((key, v) :: pairs, rest)

/-- The items of a sequence in brackets up to its end; all but the first follow a comma.  An item
that is a key makes a mapping of one pair. -/
def flowItems (handles : Handles) (first : Bool) :
    Nat → List Token → Except ReadError (List Node × List Token)
  | 0, _ => malformed
  | steps + 1, ts =>
      match ts with
      | .flowSequenceEnd :: rest => .ok ([], rest)
      | _ => do
          let ahead ←
            if first then pure ts
            else
              match ts with
              | .flowEntry :: rest => pure rest
              | _ => unexpected ts
          match ahead with
          | .flowSequenceEnd :: rest => return ([], rest)
          | .key :: rest => do
              let (key, rest) ←
                if endsFlowKey rest && !endsMapping rest then pure (absent, rest)
                else node handles false false steps rest
              let (v, rest) ←
                match rest with
                | .value :: rest =>
                    if endsFlowValue rest && !endsMapping rest then pure (absent, rest)
                    else node handles false false steps rest
                | _ => pure (absent, rest)
              let (items, rest) ← flowItems handles false steps rest
              return (.mapping {} [(key, v)] :: items, rest)
          | _ => do
              let (item, rest) ← node handles false false steps ahead
              let (items, rest) ← flowItems handles false steps rest
              return (item :: items, rest)
where
  /-- A mapping's bracket ends nothing inside a sequence. -/
  endsMapping : List Token → Bool
    | .flowMappingEnd :: _ => true
    | _ => false

/-- The pairs of a mapping in brackets up to its end; all but the first follow a comma.  An item
that is no key has an empty value. -/
def flowPairs (handles : Handles) (first : Bool) :
    Nat → List Token → Except ReadError (List (Node × Node) × List Token)
  | 0, _ => malformed
  | steps + 1, ts =>
      match ts with
      | .flowMappingEnd :: rest => .ok ([], rest)
      | _ => do
          let ahead ←
            if first then pure ts
            else
              match ts with
              | .flowEntry :: rest => pure rest
              | _ => unexpected ts
          match ahead with
          | .flowMappingEnd :: rest => return ([], rest)
          | .key :: rest => do
              let (key, rest) ←
                if endsFlowKey rest && !endsSequence rest then pure (absent, rest)
                else node handles false false steps rest
              let (v, rest) ←
                match rest with
                | .value :: rest =>
                    if endsFlowValue rest && !endsSequence rest then pure (absent, rest)
                    else node handles false false steps rest
                | _ => pure (absent, rest)
              let (pairs, rest) ← flowPairs handles false steps rest
              return ((key, v) :: pairs, rest)
          | _ => do
              let (key, rest) ← node handles false false steps ahead
              let (pairs, rest) ← flowPairs handles false steps rest
              return ((key, absent) :: pairs, rest)
where
  /-- A sequence's bracket ends nothing inside a mapping. -/
  endsSequence : List Token → Bool
    | .flowSequenceEnd :: _ => true
    | _ => false

end

/-! ## Documents -/

/-- The handles that the directives before a document give, and the tokens behind them. -/
def directives (version : Bool) (handles : Handles) :
    List Token → Except ReadError (Handles × List Token)
  | .directive (.version major _) :: rest =>
      if version || major != 1 then malformed else directives true handles rest
  | .directive (.tagHandle handle start) :: rest =>
      if (handles.lookup handle).isSome then malformed
      else directives version ((handle, start) :: handles) rest
  | .directive (.unknown _) :: rest => directives version handles rest
  | ts => .ok (handles, ts)

/-- Whether a document is empty. -/
def endsDocument : List Token → Bool
  | .directive _ :: _ => true
  | .documentStart :: _ => true
  | .documentEnd :: _ => true
  | .textEnd :: _ => true
  | _ => false

/-- Nothing but document ends may follow the one document. -/
def nothingFollows : List Token → Except ReadError Unit
  | .documentEnd :: rest => nothingFollows rest
  | [.textEnd] => .ok ()
  | ts => unexpected ts

/-- **The node of the only document**; nothing if the text has none. -/
def ofTokens? (ts : List Token) : Except ReadError (Option Node) := do
  let steps := 2 * ts.length + 2
  match ts with
  | .textEnd :: _ => return none
  | .directive _ :: _ => explicit steps ts
  | .documentStart :: _ => explicit steps ts
  | _ => do
      let (root, rest) ← node defaultHandles true false steps ts
      nothingFollows rest
      return some root
where
  /-- A document behind directives and the mark that begins it. -/
  explicit (steps : Nat) (ts : List Token) : Except ReadError (Option Node) := do
    let (given, rest) ← directives false [] ts
    match rest with
    | .documentStart :: rest => do
        let (root, rest) ←
          if endsDocument rest then pure (absent, rest)
          else node (given ++ defaultHandles) true false steps rest
        nothingFollows rest
        return some root
    | _ => unexpected rest

end Node

end RuleCatalogue.Yaml
