import Mathlib.Algebra.Group.Nat.Defs
import Mathlib.Algebra.Ring.Int.Defs
import Signoz.Lib.Kahn
import Signoz.Lib.KeyedFold

/-!
# The dependency graph of the dashboard variables

`buildDependencies` of `DashboardVariablesSelection/util.ts` makes an edge from a variable to every
QUERY variable whose text refers to it. `buildDependencyGraph` derives the topological order, the
parents and the descendants of every variable, and `buildDependencyData` keeps the QUERY variables
of the order. A JavaScript object is the list of its entries in the order of insertion. It has no
inherited entries, so a dashboard here has no variable with the name of one.
-/

namespace Signoz.Dashboard

open Lib

/-- `TVariableQueryType`. -/
inductive VariableQueryType
  | QUERY
  | TEXTBOX
  | CUSTOM
  | DYNAMIC
  deriving DecidableEq

/-- The fields of `IDashboardVariable` that the dependencies read. -/
structure DashboardVariable where
  name : String
  type : VariableQueryType
  queryValue : String

/-- The keys that every plain object inherits. `!inDegree[node]` is false for them although nothing
was stored, so `buildDependencyGraph` leaves a variable with such a name out of the order. -/
def objectPrototypeKeys : List String :=
  ["constructor", "hasOwnProperty", "isPrototypeOf", "propertyIsEnumerable", "toLocaleString",
    "toString", "valueOf", "__defineGetter__", "__defineSetter__", "__lookupGetter__",
    "__lookupSetter__", "__proto__"]

/-- `sortedVariablesArray` of a dashboard: variables with different names, none of them inherited by
the objects that are keyed with the names. -/
structure DashboardVariables where
  sorted : List DashboardVariable
  named : ∀ v ∈ sorted, v.name ≠ ""
  nodup : (sorted.map DashboardVariable.name).Nodup
  own : ∀ v ∈ sorted, v.name ∉ objectPrototypeKeys

def DashboardVariables.names (vars : DashboardVariables) : List String :=
  vars.sorted.map DashboardVariable.name

/-- `Record<string, string[]>`. -/
abbrev VariableGraph := List (String × List String)

/-- `graph[name] || []`. -/
def VariableGraph.at (graph : VariableGraph) (name : String) : List String :=
  (graph.lookup name).getD []

/-! ## `Object.keys` -/

/-- The number a key stands for, if it is a canonical array index. -/
def arrayIndex (key : String) : Option Nat :=
  let cs := key.toList
  if cs ≠ [] ∧ cs.all Char.isDigit ∧ (cs = ['0'] ∨ cs.head? ≠ some '0') then
    let n := cs.foldl (fun n c => 10 * n + (c.toNat - 48)) 0
    if n < 2 ^ 32 - 1 then some n else none
  else none

/-- The keys of an object: the array indices in ascending order, then the other keys in the order
of insertion. -/
def objectKeys (inserted : List String) : List String :=
  (inserted.filter fun key => (arrayIndex key).isSome).insertionSort
      (fun a b => (arrayIndex a).getD 0 ≤ (arrayIndex b).getD 0) ++
    inserted.filter fun key => !(arrayIndex key).isSome

/-- The keys of an object are what was inserted. -/
theorem objectKeys_perm (inserted : List String) : (objectKeys inserted).Perm inserted := by
  apply List.Perm.trans (List.Perm.append_right _ (List.perm_insertionSort _ _))
  exact List.filter_append_perm _ inserted

@[simp] theorem mem_objectKeys {inserted : List String} {key : String} :
    key ∈ objectKeys inserted ↔ key ∈ inserted := (objectKeys_perm inserted).mem_iff

theorem nodup_objectKeys {inserted : List String} (h : inserted.Nodup) :
    (objectKeys inserted).Nodup := (objectKeys_perm inserted).nodup_iff.2 h

/-! ## The graph -/

section Dependencies

variable (textContainsVariableReference : String → String → Bool)

/-- The QUERY variables whose text refers to the name. -/
def getDependentVariablesBasedOnVariableName (variableName : String)
    (vars : List DashboardVariable) : List String :=
  vars.filterMap fun v =>
    if v.type = .QUERY ∧ textContainsVariableReference v.queryValue variableName then some v.name
    else none

/-- The children of every variable. -/
def buildDependencies (vars : List DashboardVariable) : VariableGraph :=
  vars.map fun v =>
    (v.name,
      getDependentVariablesBasedOnVariableName textContainsVariableReference v.name vars)

end Dependencies

/-- Every child gets the node as a parent; the nodes themselves come first, without one. -/
def buildParentDependencyGraph (graph : VariableGraph) : VariableGraph :=
  let nodes := objectKeys (graph.map Prod.fst)
  KeyedFold.accumulate Option.toList (fun parents parent => parents ++ parent.toList) []
    (nodes.map (fun node => (node, none)) ++
      nodes.flatMap fun node => (graph.at node).map fun child => (child, some node))

/-- `inDegree`: a node counts 0, and 1 for each edge into it. -/
def inDegree (dependencies : VariableGraph) : List (String × Int) :=
  KeyedFold.accumulate id (· + ·) []
    ((objectKeys (dependencies.map Prod.fst)).flatMap fun node =>
      (node, 0) :: (dependencies.at node).map fun child => (child, 1))

/-- The number of a node. -/
def degreeOf (inDegree : List (String × Int)) (node : String) : Int := (inDegree.lookup node).getD 0

/-- The graph, with its nodes in the order of the keys. -/
def adjList (dependencies : VariableGraph) : VariableGraph :=
  (objectKeys (dependencies.map Prod.fst)).map fun node => (node, dependencies.at node)

/-- Kahn's loop, from the nodes without parents. -/
def topologicalOrder (dependencies : VariableGraph) : List String :=
  let degrees := inDegree dependencies
  let queue := (objectKeys (degrees.map Prod.fst)).filter fun node => degreeOf degrees node = 0
  Kahn.kahn (adjList dependencies).at degrees.length (degreeOf degrees) queue []

/-- The descendants of a node: its children, each followed by the descendants of the child, every
name once. -/
def descendantsOf (graph : VariableGraph) (transitiveDescendants : VariableGraph) (node : String) :
    List String :=
  ((graph.at node).flatMap fun child => child :: transitiveDescendants.at child).eraseDups

/-- The loop from the end of the order to its start. -/
def transitiveDescendants (graph : VariableGraph) (topologicalOrder : List String) :
    VariableGraph :=
  topologicalOrder.foldr (fun node known => (node, descendantsOf graph known node) :: known) []

/-- `hasCycle` of `buildDependencyGraph`. -/
def hasCycle (dependencies : VariableGraph) : Bool :=
  (topologicalOrder dependencies).length ≠ (objectKeys (dependencies.map Prod.fst)).length

/-- The fields of `IDependencyData` that the fetch store reads. -/
structure DependencyData where
  order : List String
  graph : VariableGraph
  parentDependencyGraph : VariableGraph
  transitiveDescendants : VariableGraph

/-- The order, the graph, its reverse and its closure. -/
def buildDependencyGraph (dependencies : VariableGraph) : DependencyData where
  order := topologicalOrder dependencies
  graph := adjList dependencies
  parentDependencyGraph := buildParentDependencyGraph (adjList dependencies)
  transitiveDescendants :=
    transitiveDescendants (adjList dependencies) (topologicalOrder dependencies)

/-- The order keeps the QUERY variables only. -/
def buildDependencyData (textContainsVariableReference : String → String → Bool)
    (sortedVariablesArray : List DashboardVariable) : Option DependencyData :=
  if sortedVariablesArray.length = 0 then none
  else
    let data := buildDependencyGraph
      (buildDependencies textContainsVariableReference sortedVariablesArray)
    let queryVariableOrder := data.order.filter fun name =>
      (sortedVariablesArray.find? fun v => v.name = name).map DashboardVariable.type = some .QUERY
    some { data with order := queryVariableOrder }

def buildVariableTypesMap (sortedVariablesArray : List DashboardVariable) :
    List (String × VariableQueryType) :=
  (sortedVariablesArray.filter fun v => v.name ≠ "").map fun v => (v.name, v.type)

def buildDynamicVariableOrder (sortedVariablesArray : List DashboardVariable) : List String :=
  (sortedVariablesArray.filter fun v => v.type = .DYNAMIC ∧ v.name ≠ "").map
    DashboardVariable.name

/-! ## What the graph holds -/

variable {name : String}

theorem lookup_map_of_mem {α : Type} {f : String → α} {l : List String} (h : name ∈ l) :
   (l.map fun n => (n, f n)).lookup name = some (f name) := by
  induction l with
  | nil => cases h
  | cons x rest ih =>
    rw [List.map_cons, List.lookup_cons]
    by_cases hx : name = x
    · subst hx
      simp
    · rw [beq_eq_false_iff_ne.2 hx]
      exact ih ((List.mem_cons.1 h).resolve_left hx)

variable {graph : VariableGraph}

theorem VariableGraph.at_of_not_mem (h : name ∉ graph.map Prod.fst) : graph.at name = [] := by
  rw [VariableGraph.at, KeyedFold.lookup_eq_none_of_notMem h]
  rfl

/-- What has a child is a key. -/
theorem VariableGraph.mem_keys {node child : String} (h : child ∈ graph.at node) :
   node ∈ graph.map Prod.fst := by
  by_contra hnot
  rw [VariableGraph.at_of_not_mem hnot] at h
  cases h

variable (dependencies : VariableGraph)

theorem adjList_keys :
    (adjList dependencies).map Prod.fst = objectKeys (dependencies.map Prod.fst) := by
  rw [adjList, List.map_map]
  exact List.map_id _

@[simp] theorem adjList_at (name : String) :
    (adjList dependencies).at name = dependencies.at name := by
  by_cases h : name ∈ dependencies.map Prod.fst
  · rw [VariableGraph.at, adjList, lookup_map_of_mem (mem_objectKeys.2 h)]
    rfl
  · rw [VariableGraph.at_of_not_mem h, VariableGraph.at_of_not_mem]
    rwa [adjList_keys, mem_objectKeys]

/-! ### Numbers of edges -/

/-- One edge counts 1. -/
theorem sum_itemsOf_children (children : List String) (name : String) :
    (KeyedFold.itemsOf name (children.map fun child => (child, (1 : Int)))).sum =
      children.count name := by
  induction children with
  | nil => rfl
  | cons child rest ih =>
    rw [List.map_cons, KeyedFold.itemsOf_cons, List.count_cons]
    by_cases h : child = name
    · subst h
      simp only [if_true, List.sum_cons, ih, beq_self_eq_true]
      omega
    · simp only [h, if_false, ih, beq_eq_false_iff_ne.2 h, Bool.false_eq_true]
      omega

/-- The number of a node is the number of its parents. -/
theorem degreeOf_inDegree (name : String) :
    degreeOf (inDegree dependencies) name =
      Kahn.inDegree (adjList dependencies).at (objectKeys (dependencies.map Prod.fst)) name := by
  rw [degreeOf, inDegree, KeyedFold.lookup_accumulate, List.lookup_nil,
    KeyedFold.getD_foldItems (show ∀ n : Int, id n = 0 + n from fun n => (Int.zero_add n).symm),
    ← List.sum_eq_foldl, Kahn.inDegree]
  generalize objectKeys (dependencies.map Prod.fst) = nodes
  induction nodes with
  | nil => rfl
  | cons node rest ih =>
    rw [List.flatMap_cons, KeyedFold.itemsOf_append, List.sum_append, ih, List.flatMap_cons,
      List.count_append, KeyedFold.itemsOf_cons, adjList_at]
    have hsum := sum_itemsOf_children (dependencies.at node) name
    by_cases h : node = name
    · rw [if_pos h, List.sum_cons, hsum]
      omega
    · rw [if_neg h, hsum]
      omega

theorem mem_keys_inDegree (name : String) :
    name ∈ (inDegree dependencies).map Prod.fst ↔
      name ∈ dependencies.map Prod.fst ∨
        ∃ node ∈ dependencies.map Prod.fst, name ∈ dependencies.at node := by
  rw [inDegree, KeyedFold.mem_keys_accumulate]
  simp only [List.map_nil, List.not_mem_nil, false_or, List.map_flatMap, List.mem_flatMap,
    mem_objectKeys, List.map_cons, List.mem_cons, List.map_map, List.mem_map, Function.comp_apply,
    exists_eq_right]
  constructor
  · rintro ⟨node, hnode, rfl | hchild⟩
    · exact Or.inl hnode
    · exact Or.inr ⟨node, hnode, hchild⟩
  · rintro (hname | ⟨node, hnode, hchild⟩)
    · exact ⟨name, hname, Or.inl rfl⟩
    · exact ⟨node, hnode, Or.inr hchild⟩

/-! ### The order -/

variable {dependencies}

/-- At the end of the loop no node is waiting, and every edge leads on in the order. -/
theorem topologicalOrder_running (hnodup : (dependencies.map Prod.fst).Nodup)
    (hclosed : ∀ node, ∀ child ∈ dependencies.at node, child ∈ dependencies.map Prod.fst) :
    ∃ degree, Kahn.Running dependencies.at (objectKeys (dependencies.map Prod.fst)) degree []
        (topologicalOrder dependencies) ∧
      Kahn.Forward dependencies.at (objectKeys (dependencies.map Prod.fst))
        (topologicalOrder dependencies) := by
  have hat : (adjList dependencies).at = dependencies.at := funext (adjList_at dependencies)
  have hkeys : ((inDegree dependencies).map Prod.fst).Nodup :=
    KeyedFold.nodup_keys_accumulate _ _ _ List.nodup_nil
  have hmem : ∀ name, name ∈ (inDegree dependencies).map Prod.fst ↔
      name ∈ dependencies.map Prod.fst := by
    intro name
    rw [mem_keys_inDegree]
    constructor
    · rintro (h | ⟨node, -, hchild⟩)
      · exact h
      · exact hclosed node name hchild
    · exact Or.inl
  have hqueue : ∀ name, name ∈ (objectKeys ((inDegree dependencies).map Prod.fst)).filter
        (fun node => degreeOf (inDegree dependencies) node = 0) ↔
      name ∈ objectKeys (dependencies.map Prod.fst) ∧ degreeOf (inDegree dependencies) name = 0 := by
    intro name
    rw [List.mem_filter, mem_objectKeys, mem_objectKeys, hmem, decide_eq_true_iff]
  rw [topologicalOrder, hat]
  apply Kahn.kahn_running
  · exact nodup_objectKeys hnodup
  · intro node _ child hchild
    exact mem_objectKeys.2 (hclosed node child hchild)
  · refine ⟨?_, (nodup_objectKeys hkeys).filter _, fun name h => ((hqueue name).1 h).1, ?_⟩
    · intro name
      rw [degreeOf_inDegree, hat]
      simp
    · intro name hname
      rw [List.nil_append, hqueue]
      exact (and_iff_right hname).symm
  · exact fun _ _ _ _ h => absurd h List.not_mem_nil
  · -- The numbers have an entry for every node, so their count bounds the rounds.
    have hle := (List.subperm_of_subset (nodup_objectKeys hnodup)
      (fun name h => (hmem name).2 (mem_objectKeys.1 h))).length_le
    rwa [List.length_map] at hle

/-- The order holds every node once exactly on a graph without a cycle. -/
theorem topologicalOrder_perm_iff (hnodup : (dependencies.map Prod.fst).Nodup)
    (hclosed : ∀ node, ∀ child ∈ dependencies.at node, child ∈ dependencies.map Prod.fst) :
    (topologicalOrder dependencies).Perm (dependencies.map Prod.fst) ↔
      Kahn.Acyclic dependencies.at := by
  obtain ⟨degree, hrunning, hforward⟩ := topologicalOrder_running hnodup hclosed
  rw [← hrunning.perm_iff hforward (nodup_objectKeys hnodup)]
  · exact ((objectKeys_perm _).congr_right _).symm
  · intro node _ child hchild
    exact mem_objectKeys.2 (hclosed node child hchild)
  · exact fun node child hchild => mem_objectKeys.2 (VariableGraph.mem_keys hchild)

/-! ### Parents -/

/-- The parents of a node are the nodes it is a child of. -/
theorem mem_parents {parent child : String} :
    parent ∈ (buildParentDependencyGraph graph).at child ↔ child ∈ graph.at parent := by
  rw [VariableGraph.at, buildParentDependencyGraph, KeyedFold.lookup_accumulate, List.lookup_nil,
    KeyedFold.getD_foldItems fun p => List.nil_append (Option.toList p) |>.symm,
    ← List.flatMap_eq_foldl, List.mem_flatMap]
  simp only [KeyedFold.mem_itemsOf, List.mem_append, List.mem_map, List.mem_flatMap,
    mem_objectKeys, Option.mem_toList]
  constructor
  · rintro ⟨item, ⟨node, -, heq⟩ | ⟨node, -, c, hc, heq⟩, hitem⟩
    · obtain ⟨-, rfl⟩ := Prod.ext_iff.1 heq
      cases hitem
    · obtain ⟨rfl, rfl⟩ := Prod.ext_iff.1 heq
      cases hitem
      exact hc
  · intro h
    have hnode := List.mem_map.1 (VariableGraph.mem_keys h)
    exact ⟨some parent, Or.inr ⟨parent, hnode, child, h, rfl⟩, rfl⟩

/-! ### Descendants -/

theorem nodup_eraseDups {α : Type} [BEq α] [LawfulBEq α] :
    ∀ (n : Nat) (l : List α), l.length ≤ n → l.eraseDups.Nodup := by
  intro n
  induction n with
  | zero =>
    intro l h
    obtain rfl := List.eq_nil_of_length_eq_zero (Nat.le_zero.1 h)
    exact List.nodup_nil
  | succ n ih =>
    intro l h
    cases l with
    | nil => exact List.nodup_nil
    | cons x rest =>
      have hlength : rest.length ≤ n := Nat.le_of_succ_le_succ h
      rw [List.eraseDups_cons, List.nodup_cons]
      constructor
      · simp
      · exact ih _ (Nat.le_trans (List.length_filter_le _ _) hlength)

/-- No descendant is listed twice. -/
theorem nodup_transitiveDescendants (order : List String) (name : String) :
    ((transitiveDescendants graph order).at name).Nodup := by
  induction order with
  | nil => exact List.nodup_nil
  | cons node rest ih =>
    rw [VariableGraph.at, transitiveDescendants, List.foldr_cons, List.lookup_cons]
    by_cases h : name = node
    · rw [h, beq_self_eq_true]
      exact nodup_eraseDups _ _ (Nat.le_refl _)
    · rw [beq_eq_false_iff_ne.2 h]
      exact ih

/-- Along an order in which every edge leads on, the descendants of a node are the nodes it leads
to. -/
theorem mem_transitiveDescendants {order : List String} (hnodup : order.Nodup)
    (hon : ∀ node ∈ order, ∀ child ∈ graph.at node,
      child ∈ order ∧ order.idxOf node < order.idxOf child) :
    ∀ node ∈ order, ∀ name, name ∈ (transitiveDescendants graph order).at node ↔
      Relation.TransGen (fun parent child => child ∈ graph.at parent) node name := by
  induction order with
  | nil =>
    intro node hnode
    cases hnode
  | cons first rest ih =>
    obtain ⟨hfirst, hnodup⟩ := List.nodup_cons.1 hnodup
    have hlater : ∀ node ∈ first :: rest, ∀ child ∈ graph.at node, child ∈ rest := by
      intro node hnode child hchild
      obtain ⟨hmem, hlt⟩ := hon node hnode child hchild
      refine (List.mem_cons.1 hmem).resolve_left ?_
      rintro rfl
      rw [List.idxOf_cons_self] at hlt
      omega
    have hidx : ∀ node ∈ rest, (first :: rest).idxOf node = rest.idxOf node + 1 := by
      intro node hnode
      exact List.idxOf_cons_ne _ fun h => hfirst (h ▸ hnode)
    have ih := ih hnodup (by
      intro node hnode child hchild
      have hin := List.mem_cons_of_mem first hnode
      have hmem := hlater node hin child hchild
      have hlt := (hon node hin child hchild).2
      rw [hidx node hnode, hidx child hmem] at hlt
      exact ⟨hmem, by omega⟩)
    intro node hnode name
    rw [VariableGraph.at, transitiveDescendants, List.foldr_cons, List.lookup_cons]
    by_cases heq : node = first
    · subst heq
      rw [beq_self_eq_true, Option.getD_some, descendantsOf, List.mem_eraseDups, List.mem_flatMap,
        Relation.TransGen.head'_iff]
      simp only [Relation.reflTransGen_iff_eq_or_transGen]
      constructor
      · rintro ⟨child, hchild, hname⟩
        refine ⟨child, hchild, (List.mem_cons.1 hname).imp_right ?_⟩
        exact (ih child (hlater node hnode child hchild) name).1
      · rintro ⟨child, hchild, hname⟩
        refine ⟨child, hchild, List.mem_cons.2 (hname.imp_right ?_)⟩
        exact (ih child (hlater node hnode child hchild) name).2
    · rw [beq_eq_false_iff_ne.2 heq]
      exact ih node ((List.mem_cons.1 hnode).resolve_left heq) name

/-! ## The variables of a dashboard -/

/-- `variableTypes[name]` is the type of the variable with the name. -/
theorem lookup_buildVariableTypesMap {sorted : List DashboardVariable}
    (hnamed : ∀ v ∈ sorted, v.name ≠ "") (name : String) :
    (buildVariableTypesMap sorted).lookup name =
      (sorted.find? fun v => v.name = name).map DashboardVariable.type := by
  induction sorted with
  | nil => rfl
  | cons v rest ih =>
    have hrest : ∀ w ∈ rest, w.name ≠ "" := fun w hw => hnamed w (List.mem_cons_of_mem v hw)
    have hv : v.name ≠ "" := hnamed v List.mem_cons_self
    rw [buildVariableTypesMap, List.filter_cons_of_pos (by simpa using hv), List.map_cons,
      List.lookup_cons, List.find?_cons]
    by_cases h : v.name = name
    · simp [h]
    · have hne : (name == v.name) = false := beq_eq_false_iff_ne.2 (Ne.symm h)
      rw [hne, decide_eq_false h]
      exact ih hrest

/-- Names are different, so a variable is the first with its name. -/
theorem find?_name {sorted : List DashboardVariable} (hnodup : (sorted.map (·.name)).Nodup)
    {v : DashboardVariable} (hv : v ∈ sorted) :
    (sorted.find? fun w => w.name = v.name) = some v := by
  induction sorted with
  | nil => cases hv
  | cons w rest ih =>
    rw [List.map_cons, List.nodup_cons] at hnodup
    rw [List.find?_cons]
    rcases List.mem_cons.1 hv with rfl | hrest
    · simp
    · have hne : w.name ≠ v.name := by
        intro heq
        exact hnodup.1 (heq ▸ List.mem_map_of_mem hrest)
      rw [decide_eq_false hne]
      exact ih hnodup.2 hrest

/-- The type of a variable by its name. -/
def DashboardVariables.types (vars : DashboardVariables) : List (String × VariableQueryType) :=
  buildVariableTypesMap vars.sorted

/-- The type of a variable is found under its name. -/
theorem DashboardVariables.lookup_types (vars : DashboardVariables) {type : VariableQueryType} :
    vars.types.lookup name = some type ↔ ∃ v ∈ vars.sorted, v.name = name ∧ v.type = type := by
  rw [types, lookup_buildVariableTypesMap vars.named, Option.map_eq_some_iff]
  constructor
  · rintro ⟨v, hfind, htype⟩
    have hname := List.find?_some hfind
    exact ⟨v, List.mem_of_find?_eq_some hfind, by simpa using hname, htype⟩
  · rintro ⟨v, hv, rfl, htype⟩
    exact ⟨v, find?_name vars.nodup hv, htype⟩

theorem DashboardVariables.mem_dynamicOrder (vars : DashboardVariables) :
    name ∈ buildDynamicVariableOrder vars.sorted ↔ vars.types.lookup name = some .DYNAMIC := by
  rw [vars.lookup_types, buildDynamicVariableOrder, List.mem_map]
  simp only [List.mem_filter, decide_eq_true_eq]
  constructor
  · rintro ⟨v, ⟨hv, htype, -⟩, hname⟩
    exact ⟨v, hv, hname, htype⟩
  · rintro ⟨v, hv, hname, htype⟩
    exact ⟨v, ⟨hv, htype, vars.named v hv⟩, hname⟩

section Dashboard

variable (textContainsVariableReference : String → String → Bool) (vars : DashboardVariables)

theorem buildDependencies_keys :
    (buildDependencies textContainsVariableReference vars.sorted).map Prod.fst = vars.names := by
  rw [buildDependencies, List.map_map]
  rfl

theorem nodup_buildDependencies :
    ((buildDependencies textContainsVariableReference vars.sorted).map Prod.fst).Nodup := by
  rw [buildDependencies_keys]
  exact vars.nodup

/-- Children are variables. -/
theorem mem_keys_of_mem_at (node child : String)
    (h : child ∈ (buildDependencies textContainsVariableReference vars.sorted).at node) :
    child ∈ (buildDependencies textContainsVariableReference vars.sorted).map Prod.fst := by
  rw [buildDependencies_keys]
  have hnode : node ∈ vars.names := by
    rw [← buildDependencies_keys textContainsVariableReference]
    exact VariableGraph.mem_keys h
  obtain ⟨v, hv, rfl⟩ := List.mem_map.1 hnode
  have hlookup : (buildDependencies textContainsVariableReference vars.sorted).lookup v.name =
      some (getDependentVariablesBasedOnVariableName textContainsVariableReference v.name
        vars.sorted) := by
    rw [← KeyedFold.mem_iff_lookup]
    · exact List.mem_map.2 ⟨v, hv, rfl⟩
    · exact nodup_buildDependencies textContainsVariableReference vars
  rw [VariableGraph.at, hlookup] at h
  obtain ⟨w, hw, heq⟩ := List.mem_filterMap.1 h
  by_cases hquery : w.type = .QUERY ∧ textContainsVariableReference w.queryValue v.name
  · rw [if_pos hquery] at heq
    exact List.mem_map.2 ⟨w, hw, Option.some.inj heq⟩
  · rw [if_neg hquery] at heq
    cases heq

/-- A variable may not lead to itself by references. -/
def AcyclicReferences : Prop :=
  Kahn.Acyclic (buildDependencies textContainsVariableReference vars.sorted).at

/-- What the fetch store relies on. -/
structure DependencyData.Sound (data : DependencyData)
    (variableTypes : List (String × VariableQueryType)) : Prop where
  /-- The order holds the QUERY variables. -/
  order : ∀ name, name ∈ data.order ↔ variableTypes.lookup name = some .QUERY
  parents : ∀ parent child,
    parent ∈ data.parentDependencyGraph.at child ↔ child ∈ data.graph.at parent
  acyclic : Kahn.Acyclic data.graph.at
  nodup : ∀ name, (data.transitiveDescendants.at name).Nodup

variable {textContainsVariableReference vars}

/-- Without a cycle the data says what the references say. -/
theorem buildDependencyData_sound
    (hacyclic : AcyclicReferences textContainsVariableReference vars) {data : DependencyData}
    (h : buildDependencyData textContainsVariableReference vars.sorted = some data) :
    data.Sound vars.types := by
  rw [buildDependencyData] at h
  by_cases hnil : vars.sorted.length = 0
  · rw [if_pos hnil] at h
    cases h
  rw [if_neg hnil] at h
  obtain rfl := Option.some.inj h
  have hperm : (topologicalOrder
      (buildDependencies textContainsVariableReference vars.sorted)).Perm
      ((buildDependencies textContainsVariableReference vars.sorted).map Prod.fst) :=
    (topologicalOrder_perm_iff (nodup_buildDependencies _ vars) (mem_keys_of_mem_at _ vars)).2
      hacyclic
  refine ⟨?_, ?_, ?_, ?_⟩
  · intro name
    rw [DashboardVariables.types, lookup_buildVariableTypesMap vars.named, List.mem_filter,
      decide_eq_true_iff]
    refine and_iff_right_of_imp ?_
    intro htype
    obtain ⟨v, hfind, -⟩ := Option.map_eq_some_iff.1 htype
    have hname : v.name = name := by simpa using List.find?_some hfind
    apply hperm.mem_iff.2
    rw [buildDependencies_keys]
    exact List.mem_map.2 ⟨v, List.mem_of_find?_eq_some hfind, hname⟩
  · intro parent child
    exact mem_parents
  · have hat : (adjList (buildDependencies textContainsVariableReference vars.sorted)).at =
        (buildDependencies textContainsVariableReference vars.sorted).at := funext (adjList_at _)
    rw [AcyclicReferences, ← hat] at hacyclic
    exact hacyclic
  · intro name
    exact nodup_transitiveDescendants _ name

/-- `hasCycle` tells whether the references of a dashboard, none of whose variables has an inherited
name, run in a circle. Where they do not, the order has every variable once, after those it refers
to, and the descendants of a variable are those that depend on it, directly or through others. -/
theorem buildDependencyGraph_exact (textContainsVariableReference : String → String → Bool)
    (vars : DashboardVariables) :
    let dependencies := buildDependencies textContainsVariableReference vars.sorted
    let data := buildDependencyGraph dependencies
    (hasCycle dependencies = false ↔ AcyclicReferences textContainsVariableReference vars) ∧
      (hasCycle dependencies = false → data.order.Perm vars.names ∧
        (∀ parent, ∀ child ∈ data.graph.at parent,
          data.order.idxOf parent < data.order.idxOf child) ∧
        ∀ node ∈ vars.names, ∀ name, name ∈ data.transitiveDescendants.at node ↔
          Relation.TransGen (fun parent child => child ∈ data.graph.at parent) node name) := by
  intro dependencies data
  have hkeys := buildDependencies_keys textContainsVariableReference vars
  have hnodup := nodup_buildDependencies textContainsVariableReference vars
  have hclosed := mem_keys_of_mem_at textContainsVariableReference vars
  have hgraph : data.graph.at = dependencies.at := funext (adjList_at dependencies)
  obtain ⟨degree, hrunning, hforward⟩ := topologicalOrder_running hnodup hclosed
  have horder : data.order.Nodup := (List.nodup_append.1 hrunning.nodup).1
  have hperm : hasCycle dependencies = false → data.order.Perm (dependencies.map Prod.fst) := by
    intro hlength
    have hsub := List.subperm_of_subset horder
      (fun name hname => hrunning.subset name (List.mem_append_left _ hname))
    refine (hsub.perm_of_length_le ?_).trans (objectKeys_perm _)
    exact (of_decide_eq_false hlength |> not_not.1).ge
  have hiff : hasCycle dependencies = false ↔ Kahn.Acyclic dependencies.at := by
    refine ⟨fun h => (topologicalOrder_perm_iff hnodup hclosed).1 (hperm h), fun h => ?_⟩
    have hlength := ((topologicalOrder_perm_iff hnodup hclosed).2 h).length_eq
    simpa [hasCycle, (objectKeys_perm _).length_eq] using hlength
  refine ⟨hiff, fun hacyclic => ?_⟩
  have hperm := hperm hacyclic
  have hon : ∀ node, ∀ child ∈ data.graph.at node,
      child ∈ data.order ∧ data.order.idxOf node < data.order.idxOf child := by
    intro node child hchild
    rw [hgraph] at hchild
    have hmem := hperm.mem_iff.2 (hclosed node child hchild)
    exact ⟨hmem, hforward node (mem_objectKeys.2 (VariableGraph.mem_keys hchild)) child hchild hmem⟩
  refine ⟨hkeys ▸ hperm, fun parent child hchild => (hon parent child hchild).2, ?_⟩
  intro node hnode
  apply mem_transitiveDescendants horder (fun node _ => hon node)
  exact hperm.mem_iff.2 (hkeys ▸ hnode)

end Dashboard

end Signoz.Dashboard
