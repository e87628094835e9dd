import Fastrace.Mounting
import Mathlib.Data.List.Sort

/-!
# Trees of spans (`util/tree.rs`)

The trees that the tests of the repository compare: spans by name, with their children, properties and events.  All
three constructions fill a table of nodes under the ids of the spans and hang every span under its parent, and build
the tree below `SpanId::default()` from the table; a `TreeRow` is what a construction reads of one span.

`build_tree` calls itself on the children and nothing stops it on a cycle, so it takes the `depth` to which calls may
nest.  `none` is a panic, of an `unwrap` or of an assertion, or an overflow of the call stack.
-/

namespace Fastrace

/-- The tuple that `TreeChildren` holds. -/
structure TreeNode where
  name : String
  children : List SpanId
  properties : Properties
  events : List (String × Properties)
deriving DecidableEq, Repr

abbrev TreeChildren := HashMap SpanId TreeNode

inductive Tree where
  | mk (name : String) (children : List Tree) (properties : Properties) (events : List (String × Properties))

namespace Tree

def name : Tree → String
  | .mk name _ _ _ => name

def children : Tree → List Tree
  | .mk _ children _ _ => children

/-! ### The derived order -/

/-- The order of pairs. -/
def pairCmp {α β : Type} (cmp₁ : α → α → Ordering) (cmp₂ : β → β → Ordering) (a b : α × β) : Ordering :=
  (cmp₁ a.1 b.1).then (cmp₂ a.2 b.2)

def propertiesCmp : Properties → Properties → Ordering := List.compareLex (pairCmp compare compare)

def eventsCmp : List (String × Properties) → List (String × Properties) → Ordering :=
  List.compareLex (pairCmp compare propertiesCmp)

mutual

/-- `derive(Ord)`: the fields in the order of their declaration. -/
def cmp : Tree → Tree → Ordering
  | .mk name children properties events, .mk name' children' properties' events' =>
    (compare name name').then <| (cmpAll children children').then <|
      (propertiesCmp properties properties').then (eventsCmp events events')

def cmpAll : List Tree → List Tree → Ordering
  | [], [] => .eq
  | [], _ :: _ => .lt
  | _ :: _, [] => .gt
  | t :: ts, u :: us => (cmp t u).then (cmpAll ts us)

end

/-- `sort_unstable`: what compares equal is the same here, so it does not matter which comes first. -/
def sortUnstable {α : Type} (cmp : α → α → Ordering) : List α → List α :=
  List.insertionSort fun a b => (cmp a b).isLE = true

mutual

def sort : Tree → Tree
  | .mk name children properties events => .mk name (sortUnstable cmp (sortAll children)) properties events

def sortAll : List Tree → List Tree
  | [] => []
  | t :: ts => sort t :: sortAll ts

end

/-! ### The table -/

/-- What is read of a span. -/
structure TreeRow where
  id : SpanId
  parentId : SpanId
  name : String
  properties : Properties
  events : List (String × Properties)
deriving DecidableEq, Repr

def TreeRow.node (row : TreeRow) : TreeNode := ⟨row.name, [], row.properties, row.events⟩

/-- The node of `SpanId::default()`. -/
def rootNode : TreeNode := ⟨"", [], [], []⟩

def insertRows (children : TreeChildren) (rows : List TreeRow) : TreeChildren :=
  rows.foldl (fun children row => children.insert row.id row.node) children

/-- `children.get_mut(&parent_id).as_mut().unwrap().1.push(id)`. -/
def pushChild (children : TreeChildren) (row : TreeRow) : Option TreeChildren :=
  (children.get? row.parentId).map fun node =>
    children.insert row.parentId { node with children := node.children ++ [row.id] }

def pushRows (children : TreeChildren) (rows : List TreeRow) : Option TreeChildren := rows.foldlM pushChild children

def buildTree : (depth : Nat) → SpanId → TreeChildren → Option Tree
  | 0, _, _ => none
  | depth + 1, id, raw =>
    (raw.get? id).bind fun node =>
      (node.children.mapM fun id => buildTree depth id raw).map fun children =>
        .mk node.name children node.properties node.events

/-- The table of the rows, the tree below the root, and its sorting. -/
def ofRows (depth : Nat) (rows : List TreeRow) : Option Tree :=
  (pushRows (insertRows (HashMap.empty.insert default rootNode) rows) rows).bind fun children =>
    (buildTree depth default children).map sort

/-- `assert_eq!(t.children.len(), 1)`, and the only child. -/
def onlyChild (t : Tree) : Option Tree :=
  match t.children with
  | [child] => some child
  | _ => none

/-! ### The constructions -/

def rawRow (span : RawSpan) : TreeRow := ⟨span.id, span.parentId, span.name, span.properties.getD [], []⟩

def fromRawSpans (depth : Nat) (rawSpans : List RawSpan) : Option (List Tree) :=
  (ofRows depth (rawSpans.map rawRow)).map children

def recordRow (span : SpanRecord) : TreeRow :=
  ⟨span.spanId, span.parentId, span.name, span.properties, span.events.map fun e => (e.name, e.properties)⟩

def fromSpanRecords (depth : Nat) (spanRecords : List SpanRecord) : Option Tree :=
  (ofRows depth (spanRecords.map recordRow)).bind onlyChild

/-- A span of a set, under the parent of the item if it has none; whether it is a span is not looked at. -/
def itemRow (item : CollectTokenItem) (span : RawSpan) : TreeRow :=
  { rawRow span with parentId := if span.parentId = default then item.parentId else span.parentId }

def setRows (item : CollectTokenItem) (spanSet : SpanSet) : List TreeRow := spanSet.raws.map (itemRow item)

/-- A table for each collect id. -/
abbrev Collect := HashMap CollectId TreeChildren

/-- `collect.entry(item.collect_id).or_default()`, twice. -/
def insertSet (collect : Collect) (item : CollectTokenItem) (spanSet : SpanSet) : Collect :=
  collect.insert item.collectId
    (insertRows (((collect.get? item.collectId).getD HashMap.empty).insert default rootNode) (setRows item spanSet))

def pushSet (collect : Collect) (item : CollectTokenItem) (spanSet : SpanSet) : Option Collect :=
  (collect.get? item.collectId).bind fun children =>
    (pushRows children (setRows item spanSet)).map fun children => collect.insert item.collectId children

/-- The sets with the items of their tokens, as both loops go through them. -/
def setItems (spanSets : List (SpanSet × CollectToken)) : List (SpanSet × CollectTokenItem) :=
  spanSets.flatMap fun p => p.2.map fun item => (p.1, item)

def insertSets (ps : List (SpanSet × CollectTokenItem)) : Collect :=
  ps.foldl (fun collect p => insertSet collect p.2 p.1) HashMap.empty

def pushSets (collect : Collect) (ps : List (SpanSet × CollectTokenItem)) : Option Collect :=
  ps.foldlM (fun collect p => pushSet collect p.2 p.1) collect

def treeOf (depth : Nat) (collect : Collect) (collectId : CollectId) : Option (CollectId × Tree) :=
  (collect.get? collectId).bind fun children =>
    ((buildTree depth default children).map sort).bind fun tree => tree.onlyChild.map fun tree => (collectId, tree)

/-- `collect.into_iter()` visits the collect ids in any order. -/
def fromSpanSets (depth : Nat) (order : IterOrder CollectId) (spanSets : List (SpanSet × CollectToken)) :
    Option (List (CollectId × Tree)) :=
  (pushSets (insertSets (setItems spanSets)) (setItems spanSets)).bind fun collect =>
    ((order.visit collect.keys).mapM (treeOf depth collect)).map
      (sortUnstable (pairCmp compare cmp))

end Tree

end Fastrace
