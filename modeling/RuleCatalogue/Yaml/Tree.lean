import RuleCatalogue.Yaml.Node
import RuleCatalogue.Yaml.Plain

/-!
# Trees with tags

Before a node has a value, its aliases are replaced by what they stand for, and it gets a tag: the
one it is written with, or the one that its form gives.  An alias inside the node that it stands for
is a loop and stays one.

## Main definitions

* `Tree.ofNode` is the tree of a node.
* `Tree.mergedPairs` are the pairs of a mapping, `Tree.scalarText` is the text of a scalar.
-/

namespace RuleCatalogue.Yaml

/-- What the tags of the language begin with. -/
def tagStart : String := "tag:yaml.org,2002:"

/-- **A node with its tag.**  An alias has been replaced by what it stands for, unless it is inside
of that. -/
inductive Tree
  | scalar (tag text : String)
  | sequence (anchor : Option String) (tag : String) (items : List Tree)
  | mapping (anchor : Option String) (tag : String) (pairs : List (Tree × Tree))
  /-- An alias inside the collection that it stands for. -/
  | loop (anchor : String)
deriving Inhabited

/-- The trees of the anchors met so far, the last one first. -/
abbrev Anchors := List (String × Tree)

namespace Tree

/-- The anchor of a collection, or the one that a loop leads to. -/
def anchor? : Tree → Option String
  | scalar _ _ => none
  | sequence anchor _ _ => anchor
  | mapping anchor _ _ => anchor
  | loop anchor => some anchor

/-- Whether the anchor of a tree is one of some. -/
def isAmong (anchors : List String) (t : Tree) : Bool :=
  t.anchor?.any anchors.contains

/-- The collection that a loop stands for; any other tree stands for itself. -/
def target (anchors : Anchors) : Tree → Tree
  | loop anchor => (anchors.lookup anchor).getD (loop anchor)
  | t => t

/-- The tag of a tree; a loop has that of its collection. -/
def tag (anchors : Anchors) (t : Tree) : String :=
  match t.target anchors with
  | scalar tag _ => tag
  | sequence _ tag _ => tag
  | mapping _ tag _ => tag
  | loop _ => ""

/-- The end of the tag of a plain scalar. -/
def kindName : PlainKind → String
  | .text => "str"
  | .bool => "bool"
  | .float => "float"
  | .int => "int"
  | .merge => "merge"
  | .null => "null"
  | .timestamp => "timestamp"
  | .default => "value"

/-- The tag of a scalar: the content decides where it is plain without a tag, or marked so. -/
def scalarTag (tag : Option String) (plain : Bool) (text : String) : String :=
  match tag with
  | some t => if t == "!" then tagStart ++ kindName (PlainKind.ofContent text.toList) else t
  | none =>
      if plain then tagStart ++ kindName (PlainKind.ofText text.toList) else tagStart ++ "str"

/-- The tag of a sequence or a mapping. -/
def collectionTag (tag : Option String) (usual : String) : String :=
  match tag with
  | some t => if t == "!" then tagStart ++ usual else t
  | none => tagStart ++ usual

/-! ## From nodes to trees -/

/-- Enters a tree under an anchor, if there is one; an anchor may be used once. -/
def enter (anchors : Anchors) (anchor : Option String) (t : Tree) : Except ReadError Anchors :=
  match anchor with
  | none => .ok anchors
  | some name => if (anchors.lookup name).isSome then malformed else .ok ((name, t) :: anchors)

/-- Enters a collection under an anchor before its parts are known. -/
def enterOpen (anchors : Anchors) (anchor : Option String) : Except ReadError Anchors :=
  enter anchors anchor (loop (anchor.getD ""))

/-- Replaces the tree under an anchor that was entered before. -/
def settle (anchors : Anchors) (anchor : Option String) (t : Tree) : Anchors :=
  match anchor with
  | none => anchors
  | some name => (name, t) :: anchors.filter fun entry => entry.1 != name

mutual

/-- The tree of a node, and the anchors after it. -/
def ofNode (anchors : Anchors) : Node → Except ReadError (Tree × Anchors)
  | .alias name =>
      match anchors.lookup name with
      | some t => .ok (t, anchors)
      | none => malformed
  | .scalar props plain text => do
      let t := scalar (scalarTag props.tag plain text) text
      return (t, ← enter anchors props.anchor t)
  | .sequence props items => do
      let entered ← enterOpen anchors props.anchor
      let (trees, after) ← ofItems entered items
      let t := sequence props.anchor (collectionTag props.tag "seq") trees
      return (t, settle after props.anchor t)
  | .mapping props pairs => do
      let entered ← enterOpen anchors props.anchor
      let (trees, after) ← ofPairs entered pairs
      let t := mapping props.anchor (collectionTag props.tag "map") trees
      return (t, settle after props.anchor t)

/-- The trees of items. -/
def ofItems (anchors : Anchors) : List Node → Except ReadError (List Tree × Anchors)
  | [] => .ok ([], anchors)
  | n :: rest => do
      let (t, after) ← ofNode anchors n
      let (trees, final) ← ofItems after rest
      return (t :: trees, final)

/-- The trees of pairs. -/
def ofPairs (anchors : Anchors) :
    List (Node × Node) → Except ReadError (List (Tree × Tree) × Anchors)
  | [] => .ok ([], anchors)
  | (key, v) :: rest => do
      let (keyTree, afterKey) ← ofNode anchors key
      let (valueTree, after) ← ofNode afterKey v
      let (trees, final) ← ofPairs after rest
      return ((keyTree, valueTree) :: trees, final)

end

/-! ## The pairs of a mapping -/

/-- Whether a key says that its value is merged. -/
def isMergeKey (anchors : Anchors) (key : Tree) : Bool :=
  key.tag anchors == tagStart ++ "merge"

/-- Whether a key is the mark of a default value. -/
def isDefaultKey (anchors : Anchors) (key : Tree) : Bool :=
  key.tag anchors == tagStart ++ "value"

/-- A tree with another tag. -/
def withTag (tag : String) : Tree → Tree
  | scalar _ text => scalar tag text
  | sequence anchor _ items => sequence anchor tag items
  | mapping anchor _ pairs => mapping anchor tag pairs
  | loop anchor => loop anchor

/-- A key as it counts in a mapping: the mark of a default value is a text there. -/
def asKey (anchors : Anchors) (key : Tree) : Tree :=
  if isDefaultKey anchors key then key.withTag (tagStart ++ "str") else key

/-- The collection whose pairs are to be merged, and the anchors that are busy then; nothing where
it is already being merged. -/
def source? (anchors : Anchors) (busy : List String) (t : Tree) : Option (Tree × List String) :=
  if t.isAmong busy then none else some (t.target anchors, t.anchor?.toList ++ busy)

/-- **The pairs of a mapping with those that it merges in front**: of a mapping its pairs, and of a
sequence of mappings the pairs of the last first.  A collection that is being merged, with its
anchor among the `busy` ones, gives nothing more to itself.  The number bounds the depth. -/
def mergedPairs (anchors : Anchors) :
    Nat → List String → List (Tree × Tree) → Except ReadError (List (Tree × Tree))
  | 0, _, _ => malformed
  | steps + 1, busy, pairs => do
      let ofMapping (busy : List String) (t : Tree) : Except ReadError (List (Tree × Tree)) :=
        match source? anchors busy t with
        | none => .ok []
        | some (mapping _ _ inner, busy) => mergedPairs anchors steps busy inner
        | _ => malformed
      let ofValue (t : Tree) : Except ReadError (List (Tree × Tree)) :=
        match source? anchors busy t with
        | some (sequence _ _ items, busy) =>
            (items.mapM (ofMapping busy)).map fun parts => parts.reverse.flatten
        | _ => ofMapping busy t
      let merging := pairs.filter fun (key, _) => isMergeKey anchors key
      let own := pairs.filter fun (key, _) => !isMergeKey anchors key
      let merged ← merging.mapM fun (_, v) => ofValue v
      return merged.flatten ++ own.map fun (key, v) => (asKey anchors key, v)

/-! ## The text of a scalar -/

/-- **The text of a tree that is marked as a scalar**: a mapping has that of its default value.  The
number bounds the way; it is longer only where a mapping is the default value of itself. -/
def scalarText (anchors : Anchors) : Nat → Tree → Except ReadError String
  | 0, _ => .error .endless
  | steps + 1, t =>
      match t.target anchors with
      | scalar _ text => .ok text
      | mapping _ _ pairs =>
          match pairs.find? fun (key, _) => isDefaultKey anchors key with
          | some (_, v) => scalarText anchors steps v
          | none => malformed
      | _ => malformed

end Tree

end RuleCatalogue.Yaml
