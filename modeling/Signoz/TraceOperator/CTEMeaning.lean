import Mathlib.Data.Set.Basic
import Signoz.Lib.Bindings
import Signoz.TraceOperator.CTEBuilder

/-!
# The meaning of expressions and of CTE lists

What a trace operator expression denotes, a set of spans (`denote`), and what a list of CTEs
evaluates to, one statement after the other (`evalCTEs`). Each CTE template is given its SQL meaning
on the tables it reads; `indirectDescendant_eq_ancestors` connects the recursive one with the
ancestor relation, and `evalCTE_operatorSQL` connects the templates with the operations that
`denote` uses.

The recursive template binds a table `up` of its own. A query of that name is hidden there, and the
statement no longer reads the table it was built for; its value is `none`. So is that of a `UNION`
over tables of different columns, which the database refuses: `all_spans` has `service.name` besides
the columns of the span table, and with it every statement that selects the rows of `all_spans`.
-/

namespace Signoz.TraceOperator

open Lib.Bindings Relation TraceOperatorCTEBuilder

/-! ## Sets of spans -/

/-- The spans of the left that are the parent of a span of the right. -/
def parentsOf (left right : Set Span) : Set Span :=
  {p | p ∈ left ∧ ∃ c ∈ right, p.traceID = c.traceID ∧ p.spanID = c.parentSpanID}

/-- `p` is a stored span and the parent of `c`. -/
def ParentIn (all : Set Span) (p c : Span) : Prop :=
  p ∈ all ∧ p.traceID = c.traceID ∧ p.spanID = c.parentSpanID

/-- The spans of the left that are an ancestor of a span of the right. -/
def ancestorsOf (all left right : Set Span) : Set Span :=
  {a | a ∈ left ∧ ∃ d ∈ right, TransGen (ParentIn all) a d}

def tracesOf (spans : Set Span) : Set String := {t | ∃ x ∈ spans, x.traceID = t}

/-- The spans of the left whose trace has a span of the right. -/
def inTracesOf (left right : Set Span) : Set Span := {x | x ∈ left ∧ x.traceID ∈ tracesOf right}

/-- The spans of the left whose trace has no span of the right. -/
def outsideTracesOf (left right : Set Span) : Set Span :=
  {x | x ∈ left ∧ x.traceID ∉ tracesOf right}

/-- The binary operators. -/
def operatorSpans (all : Set Span) (op : TraceOperatorType) (left right : Set Span) : Set Span :=
  match op with
  | .directDescendant => parentsOf left right
  | .indirectDescendant => ancestorsOf all left right
  | .and => inTracesOf left right
  | .or => left ∪ right
  | .not => outsideTracesOf left right

/-- The set of spans an expression denotes, given the stored spans and the spans of each query. -/
def denote (all : Set Span) (leaf : String → Set Span) : TraceOperand → Set Span
  | .nil => ∅
  | .queryRef name => leaf name
  | .operation op left right =>
    if op = .not ∧ right = .nil then outsideTracesOf all (denote all leaf left)
    else operatorSpans all op (denote all leaf left) (denote all leaf right)

/-- The spans of a query: its filter holds, and its resource-filter statement, if there is one,
selects the span's resource. -/
def TraceQuery.spans (query : TraceQuery) (all : Set Span) : Set Span :=
  match query.resourceStatement, query.whereClause with
  | .ok resource, .ok filter =>
    {s | s ∈ all ∧ (∀ selects ∈ resource, selects s.resourceFingerprint = true) ∧
      filter s = true}
  | _, _ => ∅

def querySpans (all : Set Span) (queries : List (String × TraceQuery)) (name : String) :
    Set Span :=
  match findQuery queries name with
  | some query => query.spans all
  | none => ∅

theorem querySpans_subset (all : Set Span) (queries : List (String × TraceQuery))
    (name : String) : querySpans all queries name ⊆ all := by
  intro s hs
  unfold querySpans at hs
  split at hs
  · unfold TraceQuery.spans at hs
    split at hs
    · exact hs.1
    · exact hs.elim
  · exact hs.elim

theorem operatorSpans_subset {all left right : Set Span} (op : TraceOperatorType)
    (hl : left ⊆ all) (hr : right ⊆ all) : operatorSpans all op left right ⊆ all := by
  intro s hs
  cases op with
  | directDescendant => exact hl hs.1
  | indirectDescendant => exact hl hs.1
  | and => exact hl hs.1
  | or => exact hs.elim (fun h => hl h) (fun h => hr h)
  | not => exact hl hs.1

variable {all : Set Span}

theorem denote_subset {leaf : String → Set Span} (hleaf : ∀ name, leaf name ⊆ all)
    (expr : TraceOperand) : denote all leaf expr ⊆ all := by
  induction expr with
  | nil => exact Set.empty_subset all
  | queryRef name => exact hleaf name
  | operation op left right ihl ihr =>
    simp only [denote]
    split
    · exact fun s hs => hs.1
    · exact operatorSpans_subset op ihl ihr

/-! ## Evaluating CTEs -/

/-- The columns of a table of spans: `SELECT *` on the span table, and in `all_spans` one more. -/
inductive Columns where
  | stored
  | withServiceName
deriving DecidableEq

/-- The table a CTE evaluates to. -/
inductive Table where
  | spans (columns : Columns) (rows : Set Span)
  | fingerprints (rows : Set String)

def spansOf (env : String → Option Table) (name : String) : Option (Columns × Set Span) :=
  match env name with
  | some (.spans columns rows) => some (columns, rows)
  | _ => none

def fingerprintsOf (env : String → Option Table) (name : String) : Option (Set String) :=
  match env name with
  | some (.fingerprints rows) => some rows
  | _ => none

/-- The recursive table `up` with its depth: the descendants, and above each row its stored
parents. The bound on the depth is left out. -/
inductive UpRow (all descendants : Set Span) : Span → Nat → Prop
  | base {d : Span} : d ∈ descendants → UpRow all descendants d 0
  | step {u p : Span} {depth : Nat} : UpRow all descendants u depth → p ∈ all →
      p.traceID = u.traceID → p.spanID = u.parentSpanID → UpRow all descendants p (depth + 1)

/-- The statement around `up`: the ancestor rows joined with the rows of positive depth. -/
def indirectDescendantRows (all ancestors descendants : Set Span) : Set Span :=
  {a | a ∈ ancestors ∧ ∃ x depth, UpRow all descendants x depth ∧ 0 < depth ∧
    x.traceID = a.traceID ∧ x.spanID = a.spanID}

/-- The meaning of a statement on the stored spans and the CTEs before it. `p.*`, `a.*`, `l.*` and
`b.*` are the columns of the first table. -/
def evalCTE (all : Set Span) (env : String → Option Table) : CTESQL → Option Table
  | .allSpans => some (.spans .withServiceName all)
  | .resourceFilter selects => some (.fingerprints {f | selects f = true})
  | .query none filter => some (.spans .stored {s | s ∈ all ∧ filter s = true})
  | .query (some resourceFilterCTE) filter =>
    (fingerprintsOf env resourceFilterCTE).map fun fingerprints =>
      .spans .stored {s | s ∈ all ∧ s.resourceFingerprint ∈ fingerprints ∧ filter s = true}
  | .directDescendant parentCTE childCTE => do
    let parents ← spansOf env parentCTE
    let children ← spansOf env childCTE
    return .spans parents.1 (parentsOf parents.2 children.2)
  | .indirectDescendant ancestorCTE descendantCTE => do
    -- inside the statement `up` is its own recursive table
    if ancestorCTE = "up" ∨ descendantCTE = "up" then none
    let ancestors ← spansOf env ancestorCTE
    let descendants ← spansOf env descendantCTE
    let stored ← spansOf env "all_spans"
    return .spans ancestors.1 (indirectDescendantRows stored.2 ancestors.2 descendants.2)
  | .and leftCTE rightCTE => do
    let left ← spansOf env leftCTE
    let right ← spansOf env rightCTE
    return .spans left.1 (inTracesOf left.2 right.2)
  | .or leftCTE rightCTE => do
    let left ← spansOf env leftCTE
    let right ← spansOf env rightCTE
    -- a `UNION` is over tables of the same columns
    if left.1 ≠ right.1 then none
    return .spans left.1 (left.2 ∪ right.2)
  | .unaryNot operandCTE => do
    let stored ← spansOf env "all_spans"
    let operand ← spansOf env operandCTE
    return .spans stored.1 (outsideTracesOf stored.2 operand.2)
  | .exclude leftCTE rightCTE => do
    let left ← spansOf env leftCTE
    let right ← spansOf env rightCTE
    return .spans left.1 (outsideTracesOf left.2 right.2)

def CTENode.binding (node : CTENode) : String × CTESQL := (node.name, node.sql)

/-- The tables after the CTEs, evaluated in the order of the list. -/
def evalCTEs (all : Set Span) (ctes : List CTENode) : String → Option Table :=
  evalBindings (evalCTE all) (fun _ => none) (ctes.map CTENode.binding)

theorem evalCTEs_concat (all : Set Span) (ctes : List CTENode) (node : CTENode) :
    evalCTEs all (ctes ++ [node]) =
      Function.update (evalCTEs all ctes) node.name (evalCTE all (evalCTEs all ctes) node.sql) := by
  simp only [evalCTEs, List.map_append, List.map_cons, List.map_nil]
  exact evalBindings_concat (evalCTE all) _ _ node.binding

/-! ## The recursive statement computes ancestors -/

theorem UpRow.mem_or_ancestor {all descendants : Set Span} {x : Span} {depth : Nat}
    (h : UpRow all descendants x depth) :
    (depth = 0 ∧ x ∈ descendants) ∨
      0 < depth ∧ ∃ d ∈ descendants, TransGen (ParentIn all) x d := by
  induction h with
  | base hd => exact .inl ⟨rfl, hd⟩
  | @step u p depth _ hp htrace hspan ih =>
    have hparent : ParentIn all p u := ⟨hp, htrace, hspan⟩
    refine .inr ⟨Nat.succ_pos depth, ?_⟩
    rcases ih with ⟨_, hu⟩ | ⟨_, d, hd, hud⟩
    · exact ⟨u, hu, .single hparent⟩
    · exact ⟨d, hd, .head hparent hud⟩

theorem upRow_of_transGen {all descendants : Set Span} {x d : Span} (hd : d ∈ descendants)
    (h : TransGen (ParentIn all) x d) : ∃ depth, 0 < depth ∧ UpRow all descendants x depth := by
  induction h using TransGen.head_induction_on with
  | single hparent => exact ⟨1, Nat.one_pos, .step (.base hd) hparent.1 hparent.2.1 hparent.2.2⟩
  | head hparent _ ih =>
    obtain ⟨depth, _, hrow⟩ := ih
    exact ⟨depth + 1, Nat.succ_pos depth, .step hrow hparent.1 hparent.2.1 hparent.2.2⟩

/-- A row with the ids of an ancestor is an ancestor, as soon as it is a stored span. -/
theorem transGen_parentIn_congr {x a d : Span} (ha : a ∈ all) (htrace : x.traceID = a.traceID)
    (hspan : x.spanID = a.spanID) (h : TransGen (ParentIn all) x d) :
   TransGen (ParentIn all) a d := by
  obtain ⟨y, hxy, hyd⟩ := TransGen.head'_iff.mp h
  have hay : ParentIn all a y := ⟨ha, htrace ▸ hxy.2.1, hspan ▸ hxy.2.2⟩
  exact TransGen.head'_iff.mpr ⟨y, hay, hyd⟩

theorem indirectDescendant_eq_ancestors {all ancestors descendants : Set Span}
    (h : ancestors ⊆ all) :
    indirectDescendantRows all ancestors descendants = ancestorsOf all ancestors descendants := by
  ext a
  constructor
  · rintro ⟨ha, x, depth, hrow, hpos, htrace, hspan⟩
    rcases hrow.mem_or_ancestor with ⟨hzero, _⟩ | ⟨_, d, hd, hxd⟩
    · omega
    · exact ⟨ha, d, hd, transGen_parentIn_congr (h ha) htrace hspan hxd⟩
  · rintro ⟨ha, d, hd, had⟩
    obtain ⟨depth, hpos, hrow⟩ := upRow_of_transGen hd had
    exact ⟨ha, a, depth, hrow, hpos, rfl, rfl⟩

/-! ## The templates compute the operations -/

variable {env : String → Option Table}

theorem spansOf_eq {name : String} {columns : Columns} {rows : Option (Set Span)}
    (h : env name = rows.map (.spans columns)) :
    spansOf env name = rows.map (Prod.mk columns) := by
  cases rows <;> simp [spansOf, h]

/-- The binary templates: undefined over an undefined or a hidden operand or over a union of
different columns, and otherwise the operation on sets with the columns of the left. -/
theorem evalCTE_operatorSQL {left right : Option (Set Span)} {columns columns' : Columns}
    {op : TraceOperatorType} {leftCTE rightCTE : String}
    (hall : env "all_spans" = some (.spans .withServiceName all))
    (hl : env leftCTE = left.map (.spans columns)) (hr : env rightCTE = right.map (.spans columns'))
    (hsub : ∀ rows ∈ left, rows ⊆ all) (hne : rightCTE ≠ "") :
    evalCTE all env (operatorSQL op leftCTE rightCTE) =
      if op = .indirectDescendant ∧ (leftCTE = "up" ∨ rightCTE = "up") then none
      else if op = .or ∧ columns ≠ columns' then none
      else left.bind fun l => right.map fun r => .spans columns (operatorSpans all op l r) := by
  have hall' : spansOf env "all_spans" = some (.withServiceName, all) := by simp [spansOf, hall]
  have hl' := spansOf_eq hl
  have hr' := spansOf_eq hr
  cases left with
  | none => cases op <;> simp [operatorSQL, evalCTE, hl', hne]
  | some l =>
    cases right with
    | none => cases op <;> simp [operatorSQL, evalCTE, hl', hr', hne]
    | some r =>
      cases op with
      | directDescendant => simp [operatorSQL, evalCTE, operatorSpans, hl', hr']
      | indirectDescendant =>
        by_cases hup : leftCTE = "up" ∨ rightCTE = "up"
        · simp [operatorSQL, evalCTE, hup]
        · simp [operatorSQL, evalCTE, operatorSpans, hl', hr', hall', hup,
            indirectDescendant_eq_ancestors (hsub l rfl)]
      | and => simp [operatorSQL, evalCTE, operatorSpans, hl', hr']
      | or =>
        by_cases hcolumns : columns = columns'
        · simp [operatorSQL, evalCTE, operatorSpans, hl', hr', hcolumns]
        · simp [operatorSQL, evalCTE, hl', hr', hcolumns]
      | not => simp [operatorSQL, evalCTE, operatorSpans, hl', hr', hne]

/-- A `NOT` of one operand selects from `all_spans`, with its columns. -/
theorem evalCTE_unaryNot {operand : Option (Set Span)} {columns : Columns} {operandCTE : String}
    (hall : env "all_spans" = some (.spans .withServiceName all))
    (ho : env operandCTE = operand.map (.spans columns)) :
    evalCTE all env (operatorSQL .not operandCTE "") =
      operand.map fun rows => .spans .withServiceName (outsideTracesOf all rows) := by
  have hall' : spansOf env "all_spans" = some (.withServiceName, all) := by simp [spansOf, hall]
  cases operand <;> simp [operatorSQL, evalCTE, hall', spansOf_eq ho]

/-- The CTEs of a query evaluate to its spans. -/
theorem evalCTEs_addQueryCTEs {b : TraceOperatorCTEBuilder} {query : TraceQuery} {name : String}
    {resource : Option (String → Bool)} {filter : Span → Bool}
    (hr : query.resourceStatement = .ok resource) (hw : query.whereClause = .ok filter) :
    evalCTEs all (addQueryCTEs b name resource filter).ctes name =
      some (.spans .stored (query.spans all)) := by
  cases resource with
  | none =>
    simp only [addQueryCTEs, addCTE_ctes, evalCTEs_concat, Function.update_self, evalCTE,
      TraceQuery.spans, hr, hw]
    simp
  | some selects =>
    simp only [addQueryCTEs, addCTE_ctes, evalCTEs_concat, Function.update_self, evalCTE,
      TraceQuery.spans, hr, hw, fingerprintsOf]
    simp

/-- The CTEs of a query leave every other name alone that is not a resource filter's. -/
theorem evalCTEs_addQueryCTEs_of_ne {b : TraceOperatorCTEBuilder} {name other : String}
    {resource : Option (String → Bool)} {filter : Span → Bool} (h : other ≠ name)
    (hres : other ≠ resourceFilterCTEName name) :
    evalCTEs all (addQueryCTEs b name resource filter).ctes other = evalCTEs all b.ctes other := by
  cases resource with
  | none => rw [addQueryCTEs, addCTE_ctes, evalCTEs_concat, Function.update_of_ne h]
  | some selects =>
    rw [addQueryCTEs, addCTE_ctes, evalCTEs_concat, Function.update_of_ne h, addCTE_ctes,
      evalCTEs_concat, Function.update_of_ne hres]

end Signoz.TraceOperator
