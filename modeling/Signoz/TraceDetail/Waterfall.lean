import Signoz.Lib.RoseTree
import Signoz.Lib.UnstableSort
import Mathlib.Data.Prod.Lex
import Mathlib.Data.String.Basic

/-!
# The waterfall of a trace

`GetSelectedSpans` lists the spans of a trace in pre-order, leaves out what is collapsed, and
returns a window of the list around the selected span together with the spans that are uncollapsed
now. The children of a span are sorted by start time and name on the way, in place.

`walk_eq` says what the traversal returns in terms of the places of the sorted tree: which of them
it lists, and which spans it uncollapses by itself.
-/

namespace Signoz.TraceDetail

open Lib.RoseTree Lib.RoseTree.Rose Lib.UnstableSort

/-- `model.Span` without its children, as far as the waterfall reads it. -/
structure Span where
  spanID : String
  serviceName : String
  name : String
  timeUnixNano : Nat

/-- `model.Span` with its children. -/
abbrev SpanNode := Rose Span

/-- The span of the id. -/
def spanID (node : SpanNode) : String := node.label.spanID

/-- A span as it is listed: `nodeWithoutChildren`. -/
structure ListedSpan where
  span : Span
  hasChildren : Bool
  level : Nat
  hasSiblings : Bool
  subTreeNodeCount : Nat

def spanLimitPerRequestForWaterfall : Nat := 500

def maxDepthForSelectedSpanChildren : Nat := 5

/-! ## The order of the children -/

/-- What children are sorted by: the start time, then the name. -/
def siblingKey (node : SpanNode) : Nat ×ₗ String := toLex (node.label.timeUnixNano, node.label.name)

def sortChildren (S : Sorter) (children : List SpanNode) : List SpanNode :=
  S.byKey siblingKey children

/-- The tree as the traversal leaves it, with the children of every span sorted. -/
def sortSpans (S : Sorter) : SpanNode → SpanNode := reorder (sortChildren S)

theorem siblingKey_sortSpans (S : Sorter) (node : SpanNode) :
    siblingKey (sortSpans S node) = siblingKey node := by
  rw [siblingKey, siblingKey, sortSpans, label_reorder]

/-- Sorting the children first and then what is below each of them is the same. -/
theorem sortSpans_node (S : Sorter) (span : Span) (children : List SpanNode) :
    sortSpans S (node span children) = node span ((sortChildren S children).map (sortSpans S)) := by
  rw [sortSpans, reorder_node]
  congr 1
  exact byKey_map S _ fun c _ => siblingKey_sortSpans S c

/-! ## The traversal -/

mutual

/-- `getPathFromRootToSelectedSpanId`; `none` when the span is not in the subtree. -/
def getPathFromRootToSelectedSpanId (selectedSpanId : String) : SpanNode → Option (List String)
  | node span children =>
    if span.spanID = selectedSpanId then some [span.spanID]
    else (getPathFromChildren selectedSpanId children).map (span.spanID :: ·)

def getPathFromChildren (selectedSpanId : String) : List SpanNode → Option (List String)
  | [] => none
  | child :: rest =>
    match getPathFromRootToSelectedSpanId selectedSpanId child with
    | some path => some path
    | none => getPathFromChildren selectedSpanId rest

end

/-- `traverseOpts`. The map of uncollapsed spans is the list of its keys. -/
structure TraverseOpts where
  uncollapsedSpans : List String
  selectedSpanID : String
  isSelectedSpanUncollapsed : Bool
  selectAll : Bool

/-- What a traversal returns, and the `SubTreeNodeCount` it leaves in the span. -/
structure Traversal where
  preOrderTraversal : List ListedSpan
  autoExpandedSpans : List String
  subTreeNodeCount : Nat

/-- `remainingAutoExpandDepth` -/
def remainingAutoExpandDepth (opts : TraverseOpts) (spanID : String) (autoExpandDepth : Nat) :
    Nat :=
  if spanID = opts.selectedSpanID ∧ opts.isSelectedSpanUncollapsed then
    maxDepthForSelectedSpanChildren
  else autoExpandDepth - 1

mutual

/-- `traverseTrace` on a tree whose children are in order already. -/
def walk (opts : TraverseOpts) (level : Nat) (isPartOfPreOrder hasSibling : Bool)
    (autoExpandDepth : Nat) : SpanNode → Traversal
  | node span children =>
    let remaining := remainingAutoExpandDepth opts span.spanID autoExpandDepth
    let isAlreadyUncollapsed : Bool := span.spanID ∈ opts.uncollapsedSpans
    let isChildWithinMaxDepth : Bool := 0 < remaining
    let childIsPartOfPreOrder :=
      opts.selectAll || (isPartOfPreOrder && (isAlreadyUncollapsed || isChildWithinMaxDepth))
    let below := walkChildren opts (level + 1) childIsPartOfPreOrder remaining children
    let nodeWithoutChildren : ListedSpan :=
      { span, hasChildren := !children.isEmpty, level, hasSiblings := hasSibling
        subTreeNodeCount := below.subTreeNodeCount + 1 }
    { preOrderTraversal :=
        (if isPartOfPreOrder then [nodeWithoutChildren] else []) ++ below.preOrderTraversal
      -- recorded in the loop over the children, so not for a span without any
      autoExpandedSpans :=
        (if isPartOfPreOrder && isChildWithinMaxDepth && !isAlreadyUncollapsed &&
            !children.isEmpty then [span.spanID] else []) ++ below.autoExpandedSpans
      subTreeNodeCount := below.subTreeNodeCount }

def walkChildren (opts : TraverseOpts) (level : Nat) (isPartOfPreOrder : Bool)
    (autoExpandDepth : Nat) : List SpanNode → Traversal
  | [] => ⟨[], [], 0⟩
  | child :: rest =>
    let first := walk opts level isPartOfPreOrder (!rest.isEmpty) autoExpandDepth child
    let others := walkChildren opts level isPartOfPreOrder autoExpandDepth rest
    { preOrderTraversal := first.preOrderTraversal ++ others.preOrderTraversal
      autoExpandedSpans := first.autoExpandedSpans ++ others.autoExpandedSpans
      subTreeNodeCount := first.subTreeNodeCount + 1 + others.subTreeNodeCount }

end

/-- `traverseTrace` -/
def traverseTrace (S : Sorter) (span : SpanNode) (opts : TraverseOpts) (level : Nat)
    (isPartOfPreOrder hasSibling : Bool) (autoExpandDepth : Nat) : Traversal :=
  walk opts level isPartOfPreOrder hasSibling autoExpandDepth (sortSpans S span)

/-! ## What the traversal lists -/

/-- The levels still uncollapsed by themselves below the spans `above`, the lowest one first. -/
def autoExpandDepth (opts : TraverseOpts) : List Span → Nat
  | [] => 0
  | span :: above => remainingAutoExpandDepth opts span.spanID (autoExpandDepth opts above)

/-- A span under the spans `above` is part of the pre-order. -/
def isPartOfPreOrder (opts : TraverseOpts) : List Span → Bool
  | [] => true
  | span :: above => isPartOfPreOrder opts above &&
      (span.spanID ∈ opts.uncollapsedSpans || 0 < autoExpandDepth opts (span :: above))

/-- The place as it is listed. -/
def listed (p : Place Span) : ListedSpan where
  span := p.node.label
  hasChildren := !p.node.children.isEmpty
  level := p.above.length
  hasSiblings := p.followed
  subTreeNodeCount := p.node.size

/-- The span at the place is uncollapsed by the traversal. -/
def isAutoExpanded (opts : TraverseOpts) (p : Place Span) : Bool :=
  isPartOfPreOrder opts p.above && 0 < autoExpandDepth opts (p.node.label :: p.above) &&
    !(p.node.label.spanID ∈ opts.uncollapsedSpans) && !p.node.children.isEmpty

/-- The places below one that is listed, and below one that is not. -/
theorem childIsPartOfPreOrder_eq {opts : TraverseOpts} (hall : opts.selectAll = false)
    (span : Span) (above : List Span) :
    (opts.selectAll || (isPartOfPreOrder opts above &&
      (decide (span.spanID ∈ opts.uncollapsedSpans) ||
        decide (0 < remainingAutoExpandDepth opts span.spanID (autoExpandDepth opts above))))) =
      isPartOfPreOrder opts (span :: above) := by
  rw [hall, Bool.false_or, isPartOfPreOrder, autoExpandDepth]

mutual

/-- The traversal lists the places whose ancestors are all uncollapsed, and records the spans it
uncollapses. -/
theorem walk_eq {opts : TraverseOpts} (hall : opts.selectAll = false) (above : List Span)
    (followed : Bool) : ∀ t : SpanNode,
    walk opts above.length (isPartOfPreOrder opts above) followed (autoExpandDepth opts above) t =
      { preOrderTraversal :=
          ((places above followed t).filter fun p => isPartOfPreOrder opts p.above).map listed
        autoExpandedSpans :=
          ((places above followed t).filter (isAutoExpanded opts)).map fun p => spanID p.node
        subTreeNodeCount := (subtreesOf t.children).length }
  | node span children => by
    have hbelow := walkChildren_eq hall (span :: above) children
    rw [List.length_cons] at hbelow
    rw [walk]
    simp only [childIsPartOfPreOrder_eq hall]
    rw [show remainingAutoExpandDepth opts span.spanID (autoExpandDepth opts above) =
      autoExpandDepth opts (span :: above) from rfl, hbelow, places, List.filter_cons,
      List.filter_cons, children_node]
    congr 1
    · cases isPartOfPreOrder opts above
      · rfl
      · rfl
    · have hself : isAutoExpanded opts ⟨above, node span children, followed⟩ =
          (isPartOfPreOrder opts above && decide (0 < autoExpandDepth opts (span :: above)) &&
            !decide (span.spanID ∈ opts.uncollapsedSpans) && !children.isEmpty) := rfl
      rw [hself]
      split <;> rfl

theorem walkChildren_eq {opts : TraverseOpts} (hall : opts.selectAll = false)
    (above : List Span) : ∀ ts : List SpanNode,
    walkChildren opts above.length (isPartOfPreOrder opts above) (autoExpandDepth opts above) ts =
      { preOrderTraversal :=
          ((placesOf above ts).filter fun p => isPartOfPreOrder opts p.above).map listed
        autoExpandedSpans :=
          ((placesOf above ts).filter (isAutoExpanded opts)).map fun p => spanID p.node
        subTreeNodeCount := (subtreesOf ts).length }
  | [] => rfl
  | child :: rest => by
    rw [walkChildren, walk_eq hall above (!rest.isEmpty) child, walkChildren_eq hall above rest,
      placesOf, subtreesOf, List.filter_append, List.filter_append, List.map_append,
      List.map_append, List.length_append]
    congr 1
    cases child
    rfl

end

/-! ## The window -/

/-- `findIndexForSelectedSpanFromPreOrder` -/
def findIndexForSelectedSpanFromPreOrder (spans : List ListedSpan) (selectedSpanId : String) :
    Int :=
  match spans.findIdx? fun listed => listed.span.spanID = selectedSpanId with
  | some index => index
  | none => -1

/-- The bounds of the window around the selected index, in a list of `length` spans. -/
def windowBounds (selectedSpanIndex : Int) (length : Nat) : Int × Int :=
  -- the products with 0.4 and 0.6 are exact
  let startIndex := selectedSpanIndex - (spanLimitPerRequestForWaterfall * 4 / 10 : Nat)
  let endIndex := selectedSpanIndex + (spanLimitPerRequestForWaterfall * 6 / 10 : Nat)
  -- the window is moved to the right, and then to the left
  let endShifted := if startIndex < 0 then endIndex - startIndex else endIndex
  let startShifted := if startIndex < 0 then 0 else startIndex
  let startIndex :=
    if endShifted > length then startShifted - (endShifted - length) else startShifted
  let endIndex := if endShifted > length then (length : Int) else endShifted
  (if startIndex < 0 then 0 else startIndex, endIndex)

/-- `list[lo:hi]`; `none` when an index is out of range. -/
def slice {α : Type} (list : List α) (lo hi : Int) : Option (List α) :=
  if 0 ≤ lo ∧ lo ≤ hi ∧ hi ≤ list.length then
    some ((list.take hi.toNat).drop lo.toNat)
  else none

/-- The variables of the loop over the roots. -/
structure Selection where
  uncollapsedSpanMap : List String
  preOrderTraversal : List ListedSpan
  selectedSpanIndex : Int
  rootServiceName : String
  rootServiceEntryPoint : String

/-- One root. -/
def selectRoot (S : Sorter) (selectedSpanID : String) (isSelectedSpanIDUnCollapsed : Bool)
    (state : Selection) (rootNode : SpanNode) : Selection :=
  let path := (getPathFromRootToSelectedSpanId selectedSpanID rootNode).getD []
  let uncollapsed := state.uncollapsedSpanMap ++
    path.filter fun spanID => !(selectedSpanID = spanID && !isSelectedSpanIDUnCollapsed)
  let traversal := traverseTrace S rootNode
    { uncollapsedSpans := uncollapsed, selectedSpanID
      isSelectedSpanUncollapsed := isSelectedSpanIDUnCollapsed, selectAll := false }
    0 true false 0
  let index := findIndexForSelectedSpanFromPreOrder traversal.preOrderTraversal selectedSpanID
  { uncollapsedSpanMap := uncollapsed ++ traversal.autoExpandedSpans
    preOrderTraversal := state.preOrderTraversal ++ traversal.preOrderTraversal
    selectedSpanIndex :=
      if index ≠ -1 then index + state.preOrderTraversal.length else state.selectedSpanIndex
    rootServiceName :=
      if state.rootServiceName = "" then rootNode.label.serviceName else state.rootServiceName
    rootServiceEntryPoint :=
      if state.rootServiceEntryPoint = "" then rootNode.label.name
      else state.rootServiceEntryPoint }

/-- The roots that are looked up. A root the map does not have is passed over. -/
def rootNodes (traceRoots : List SpanNode) (spanIdToSpanNodeMap : String → Option SpanNode) :
    List SpanNode :=
  traceRoots.filterMap fun root => spanIdToSpanNodeMap (spanID root)

/-- The loop over the roots. -/
def selectRoots (S : Sorter) (uncollapsedSpans : List String) (selectedSpanID : String)
    (isSelectedSpanIDUnCollapsed : Bool) (roots : List SpanNode) : Selection :=
  roots.foldl (selectRoot S selectedSpanID isSelectedSpanIDUnCollapsed)
    { uncollapsedSpanMap := uncollapsedSpans, preOrderTraversal := [], selectedSpanIndex := -1
      rootServiceName := "", rootServiceEntryPoint := "" }

/-- `GetSelectedSpans`; `none` for the panic on an index out of range. The uncollapsed ids stand in
no particular order, as the keys of a map do. -/
def getSelectedSpans (S : Sorter) (uncollapsedSpans : List String) (selectedSpanID : String)
    (traceRoots : List SpanNode) (spanIdToSpanNodeMap : String → Option SpanNode)
    (isSelectedSpanIDUnCollapsed : Bool) :
    Option (List ListedSpan × List String × String × String) := do
  let state := selectRoots S uncollapsedSpans selectedSpanID isSelectedSpanIDUnCollapsed
    (rootNodes traceRoots spanIdToSpanNodeMap)
  let selectedSpanIndex :=
    if state.selectedSpanIndex = -1 ∧ selectedSpanID ≠ "" then 0 else state.selectedSpanIndex
  let (startIndex, endIndex) := windowBounds selectedSpanIndex state.preOrderTraversal.length
  let spans ← slice state.preOrderTraversal startIndex endIndex
  return (spans, state.uncollapsedSpanMap, state.rootServiceName, state.rootServiceEntryPoint)

end Signoz.TraceDetail
