import Mathlib.Algebra.Ring.Int.Defs
import Signoz.Lib.KeyedRows
import Signoz.TraceOperator.Walk

/-!
# The rows of a CTE

CTEs with their rows counted: a statement evaluates to a list of rows, a row as often as the
statement returns it. `=>` and `&&` are inner joins and repeat a span of the left for each of its
partners, `->` and `||` have a `DISTINCT`, `NOT` is a filter. So each CTE holds a span once exactly
if no span of a join's left side has two partners, the tables that are read whole hold a span once,
and a `||` is over tables of the same columns (`eachSpanOnce_iff`).
-/

namespace Signoz.TraceOperator

open Lib.Bindings Lib.KeyedRows TraceOperatorCTEBuilder

/-! ## Evaluating CTEs to rows -/

/-- What identifies a span. -/
def Span.key (s : Span) : String × String := (s.traceID, s.spanID)

/-- The columns and rows a CTE evaluates to, or the fingerprints of a resource filter. The further
column `service.name` is a copy of one of the row, and tells no two rows apart. -/
inductive RowTable where
  | spans (columns : Columns) (rows : List Span)
  | fingerprints (selects : String → Bool)

def rowsOf (env : String → Option RowTable) (name : String) : Option (Columns × List Span) :=
  match env name with
  | some (.spans columns rows) => some (columns, rows)
  | _ => none

def selectsOf (env : String → Option RowTable) (name : String) : Option (String → Bool) :=
  match env name with
  | some (.fingerprints selects) => some selects
  | _ => none

/-- `l.trace_id = r.trace_id`. -/
def sameTrace (l r : Span) : Bool := l.traceID == r.traceID

/-- `p.trace_id = c.trace_id AND p.span_id = c.parent_span_id`. -/
def isParentOf (p c : Span) : Bool := p.traceID == c.traceID && p.spanID == c.parentSpanID

/-- The rows of `up` at a depth: `UNION ALL` keeps a row for each way up. -/
def upLevel (stored descendants : List Span) : Nat → List Span
  | 0 => descendants
  | depth + 1 => (upLevel stored descendants depth).flatMap fun u =>
    stored.filter fun p => isParentOf p u

/-- The rows of `up` with `depth > 0`; the recursion ends at depth 100. -/
def upRows (stored descendants : List Span) : List Span :=
  (List.range 100).flatMap fun depth => upLevel stored descendants (depth + 1)

/-- The rows whose trace is not one of the other table: `trace_id GLOBAL NOT IN …`. -/
def outsideTraces (rows other : List Span) : List Span :=
  rows.filter fun s => !other.any fun o => sameTrace s o

/-- `SELECT DISTINCT a.* …`: the ancestor rows with the ids of a row of `up`. -/
def ancestorRows (stored ancestors descendants : List Span) : List Span :=
  (ancestors.filter fun a => (upRows stored descendants).any fun u => u.key == a.key).dedup

/-- The rows of a statement on the stored spans and the CTEs before it. -/
def evalRows (stored : List Span) (env : String → Option RowTable) : CTESQL → Option RowTable
  | .allSpans => some (.spans .withServiceName stored)
  | .resourceFilter selects => some (.fingerprints selects)
  | .query none filter => some (.spans .stored (stored.filter filter))
  | .query (some resourceFilterCTE) filter =>
    (selectsOf env resourceFilterCTE).map fun selects =>
      .spans .stored (stored.filter fun s => selects s.resourceFingerprint && filter s)
  | .directDescendant parentCTE childCTE => do
    let parents ← rowsOf env parentCTE
    let children ← rowsOf env childCTE
    return .spans parents.1 (joinLeft isParentOf parents.2 children.2)
  | .indirectDescendant ancestorCTE descendantCTE => do
    -- inside the statement `up` is its own recursive table
    if ancestorCTE = "up" ∨ descendantCTE = "up" then none
    let ancestors ← rowsOf env ancestorCTE
    let descendants ← rowsOf env descendantCTE
    let all ← rowsOf env "all_spans"
    return .spans ancestors.1 (ancestorRows all.2 ancestors.2 descendants.2)
  | .and leftCTE rightCTE => do
    let left ← rowsOf env leftCTE
    let right ← rowsOf env rightCTE
    return .spans left.1 (joinLeft sameTrace left.2 right.2)
  | .or leftCTE rightCTE => do
    let left ← rowsOf env leftCTE
    let right ← rowsOf env rightCTE
    -- a `UNION` is over tables of the same columns
    if left.1 ≠ right.1 then none
    return .spans left.1 (unionDistinct left.2 right.2)
  | .unaryNot operandCTE => do
    let all ← rowsOf env "all_spans"
    let operand ← rowsOf env operandCTE
    return .spans all.1 (outsideTraces all.2 operand.2)
  | .exclude leftCTE rightCTE => do
    let left ← rowsOf env leftCTE
    let right ← rowsOf env rightCTE
    return .spans left.1 (outsideTraces left.2 right.2)

/-- The tables after the CTEs, evaluated in the order of the list. -/
def evalRowCTEs (stored : List Span) (ctes : List CTENode) : String → Option RowTable :=
  evalBindings (fun env (node : CTENode) => evalRows stored env node.sql) (fun _ => none)
    (ctes.map fun node => (node.name, node))

/-- The rows of a query by itself. -/
def TraceQuery.rows (query : TraceQuery) (stored : List Span) : List Span :=
  match query.resourceStatement, query.whereClause with
  | .ok resource, .ok filter =>
    stored.filter fun s => (resource.all fun selects => selects s.resourceFingerprint) && filter s
  | _, _ => []

/-- The table of the name holds spans, each of them once. -/
def HoldsEachOnce (tables : String → Option RowTable) (name : String) : Prop :=
  ∃ columns rows, tables name = some (.spans columns rows) ∧ EachOnce Span.key rows

/-- Over every group of rows, a count counts spans and a sum adds a value of each span once. -/
def AggregatesSpans (tables : String → Option RowTable) (name : String) : Prop :=
  ∃ columns rows, tables name = some (.spans columns rows) ∧ ∀ group : Span → Bool,
    (rows.filter group).length = ((rows.filter group).map Span.key).dedup.length ∧
      ∀ value : Span → Int,
        ((rows.filter group).map value).sum = ((rows.filter group).dedup.map value).sum

/-! ## One statement -/

/-- What the tables that a statement reads must be like for it to return a span once. -/
def SinglePartners (stored : List Span) (tables : String → Option RowTable) : CTESQL → Prop
  | .directDescendant parentCTE childCTE =>
    ∀ parents ∈ rowsOf tables parentCTE, ∀ children ∈ rowsOf tables childCTE,
      ∀ p ∈ parents.2, ∀ c ∈ children.2, ∀ c' ∈ children.2, isParentOf p c = true →
        isParentOf p c' = true → c.key = c'.key
  | .indirectDescendant ancestorCTE descendantCTE => ancestorCTE ≠ "up" ∧ descendantCTE ≠ "up"
  | .and leftCTE rightCTE =>
    ∀ left ∈ rowsOf tables leftCTE, ∀ right ∈ rowsOf tables rightCTE,
      ∀ l ∈ left.2, ∀ r ∈ right.2, ∀ r' ∈ right.2, sameTrace l r = true → sameTrace l r' = true →
        r.key = r'.key
  | .or leftCTE rightCTE =>
    ∀ left ∈ rowsOf tables leftCTE, ∀ right ∈ rowsOf tables rightCTE,
      left.1 = right.1 ∧ ∀ l ∈ left.2, ∀ r ∈ right.2, l.key = r.key → l = r
  | .unaryNot operandCTE =>
    ∀ operand ∈ rowsOf tables operandCTE, EachOnce Span.key (outsideTraces stored operand.2)
  | .allSpans => EachOnce Span.key stored
  | .resourceFilter _ => True
  | .query _ _ => True
  | .exclude _ _ => True

variable {name : String}

theorem rowsOf_eq {env : String → Option RowTable} {columns : Columns} {rows : List Span}
    (h : env name = some (.spans columns rows)) :
    rowsOf env name = some (columns, rows) := by
  simp [rowsOf, h]

theorem holdsEachOnce_spans_iff {tables : String → Option RowTable} {columns : Columns}
    {rows : List Span} (h : tables name = some (.spans columns rows)) :
    HoldsEachOnce tables name ↔ EachOnce Span.key rows := by
  constructor
  · rintro ⟨columns', rows', hrows', honce⟩
    rw [h] at hrows'
    simp only [Option.some.injEq, RowTable.spans.injEq] at hrows'
    exact hrows'.2 ▸ honce
  · exact fun honce => ⟨columns, rows, h, honce⟩

/-- A table that holds each span once is aggregated span by span. -/
theorem HoldsEachOnce.aggregatesSpans {tables : String → Option RowTable}
    (h : HoldsEachOnce tables name) : AggregatesSpans tables name := by
  obtain ⟨columns, rows, hrows, honce⟩ := h
  refine ⟨columns, rows, hrows, fun group => ?_⟩
  have hgroup : EachOnce Span.key (rows.filter group) := honce.filter group
  constructor
  · rw [List.dedup_eq_self.mpr hgroup, List.length_map]
  · intro value
    rw [List.dedup_eq_self.mpr hgroup.nodup]

section Statement

variable {stored : List Span} {tables : String → Option RowTable} {name leftCTE rightCTE : String}

/-- The statement of a binary operation on tables that hold each span once. -/
theorem holdsEachOnce_binary {op : TraceOperatorType} (hne : rightCTE ≠ "")
    (hstored : tables "all_spans" = some (.spans .withServiceName stored))
    (hl : HoldsEachOnce tables leftCTE) (hr : HoldsEachOnce tables rightCTE)
    (hvalue : tables name = evalRows stored tables (operatorSQL op leftCTE rightCTE)) :
    HoldsEachOnce tables name ↔
      SinglePartners stored tables (operatorSQL op leftCTE rightCTE) := by
  obtain ⟨columns, left, hleft, hlonce⟩ := hl
  obtain ⟨columns', right, hright, hronce⟩ := hr
  have hlrows := rowsOf_eq hleft
  have hrrows := rowsOf_eq hright
  have hsrows := rowsOf_eq hstored
  cases op with
  | directDescendant =>
    have hrows : tables name = some (.spans columns (joinLeft isParentOf left right)) := by
      rw [hvalue]
      simp [operatorSQL, evalRows, hlrows, hrrows]
    rw [holdsEachOnce_spans_iff hrows, eachOnce_joinLeft_iff hlonce hronce]
    simp [operatorSQL, SinglePartners, hlrows, hrrows]
  | indirectDescendant =>
    by_cases hup : leftCTE = "up" ∨ rightCTE = "up"
    · -- the statement reads the recursive table, and its own is none of spans
      have hrows : tables name = none := by
        rw [hvalue]
        simp [operatorSQL, evalRows, hup]
      have hhidden : ¬ (leftCTE ≠ "up" ∧ rightCTE ≠ "up") := by tauto
      simp [HoldsEachOnce, hrows, operatorSQL, SinglePartners, hhidden]
    · have hrows : tables name = some (.spans columns (ancestorRows stored left right)) := by
        rw [hvalue]
        simp [operatorSQL, evalRows, hlrows, hrrows, hsrows, hup]
      have honce : EachOnce Span.key (ancestorRows stored left right) :=
        (hlonce.filter _).dedup
      rw [holdsEachOnce_spans_iff hrows]
      simp only [operatorSQL, SinglePartners, honce, true_iff]
      exact not_or.mp hup
  | and =>
    have hrows : tables name = some (.spans columns (joinLeft sameTrace left right)) := by
      rw [hvalue]
      simp [operatorSQL, evalRows, hlrows, hrrows]
    rw [holdsEachOnce_spans_iff hrows, eachOnce_joinLeft_iff hlonce hronce]
    simp [operatorSQL, SinglePartners, hlrows, hrrows]
  | or =>
    by_cases hcolumns : columns = columns'
    · subst hcolumns
      have hrows : tables name = some (.spans columns (unionDistinct left right)) := by
        rw [hvalue]
        simp [operatorSQL, evalRows, hlrows, hrrows]
      rw [holdsEachOnce_spans_iff hrows, eachOnce_unionDistinct_iff hlonce hronce]
      simp [operatorSQL, SinglePartners, hlrows, hrrows]
    · -- the statement fails, and there is no table
      have hrows : tables name = none := by
        rw [hvalue]
        simp [operatorSQL, evalRows, hlrows, hrrows, hcolumns]
      simp [HoldsEachOnce, hrows, operatorSQL, SinglePartners, hlrows, hrrows, hcolumns]
  | not =>
    have hrows : tables name = some (.spans columns (outsideTraces left right)) := by
      rw [hvalue]
      simp [operatorSQL, evalRows, hlrows, hrrows, hne]
    rw [holdsEachOnce_spans_iff hrows]
    simp only [operatorSQL, if_neg hne, SinglePartners, iff_true]
    exact hlonce.filter _

/-- The statement of a `NOT` with one operand. -/
theorem holdsEachOnce_unaryNot
    (hstored : tables "all_spans" = some (.spans .withServiceName stored))
    (ho : HoldsEachOnce tables leftCTE)
    (hvalue : tables name = evalRows stored tables (operatorSQL .not leftCTE "")) :
    HoldsEachOnce tables name ↔ SinglePartners stored tables (operatorSQL .not leftCTE "") := by
  obtain ⟨columns, operand, hoperand, -⟩ := ho
  have hrows : tables name = some (.spans .withServiceName (outsideTraces stored operand)) := by
    rw [hvalue]
    simp [operatorSQL, evalRows, rowsOf_eq hstored, rowsOf_eq hoperand]
  rw [holdsEachOnce_spans_iff hrows]
  simp [operatorSQL, SinglePartners, rowsOf_eq hoperand]

end Statement

/-! ## The tables of the walk -/

/-- A statement depends on the tables it refers to. -/
theorem evalRows_congr (stored : List Span) {env env' : String → Option RowTable} {sql : CTESQL}
    (h : ∀ name ∈ sql.references, env name = env' name) :
    evalRows stored env sql = evalRows stored env' sql := by
  have hrows : ∀ name ∈ sql.references, rowsOf env name = rowsOf env' name := fun name hname => by
    simp only [rowsOf, h name hname]
  have hselects : ∀ name ∈ sql.references, selectsOf env name = selectsOf env' name :=
    fun name hname => by simp only [selectsOf, h name hname]
  cases sql with
  | query resourceFilterCTE filter =>
    cases resourceFilterCTE with
    | none => rfl
    | some resourceFilter =>
      simp only [evalRows, hselects resourceFilter (by simp [CTESQL.references])]
  | allSpans => rfl
  | resourceFilter selects => rfl
  | _ => simp_all [evalRows, CTESQL.references]

section Walk

variable {queries : List (String × TraceQuery)} {seen : List TraceOperand} {ctes : List CTENode}
  (stored : List Span) {node : CTENode}

/-- After all the CTEs, each of them has the value of its statement. -/
theorem Built.table (h : Built queries seen ctes) (hnode : node ∈ ctes) :
    evalRowCTEs stored ctes node.name =
      evalRows stored (evalRowCTEs stored ctes) node.sql := by
  have hnames : ((ctes.map fun node => (node.name, node)).map Prod.fst).Nodup := by
    rw [List.map_map]
    exact h.nodup
  refine @evalBindings_of_mem String CTENode RowTable _
    (fun node : CTENode => node.sql.references ++ node.dependsOn) _ _ ?_ _ hnames h.refersEarlier
    (node.name, node) (List.mem_map_of_mem hnode)
  intro node env env' hsame
  exact evalRows_congr stored fun name hname => hsame name (List.mem_append_left _ hname)

theorem Built.table_stored (h : Built queries seen ctes) :
    evalRowCTEs stored ctes "all_spans" = some (.spans .withServiceName stored) :=
  h.table stored h.stored

omit stored in
/-- A resource filter's name goes with the statement of its query. -/
theorem Built.resourceFilter (h : Built queries seen ctes) {name : String} {query : TraceQuery}
    {selects : String → Bool} (hquery : findQuery queries name = some query)
    (hres : query.resourceStatement = .ok (some selects)) (hnode : node ∈ ctes)
    (hname : node.name = resourceFilterCTEName name) : node.sql = .resourceFilter selects := by
  have hparsed : ∀ e, Parsed e → cteName e ≠ node.name := fun e he heq =>
    cteName_ne_resourceFilter he name (heq.trans hname)
  cases h.builtFor node hnode with
  | allSpans => exact absurd rfl (hparsed (.queryRef "all_spans") (.queryRef isQueryName_reserved))
  | resourceFilter hseen hquery' hres' =>
    rw [resourceFilterCTEName_injective hname, hquery] at hquery'
    rw [← Option.some.inj hquery', hres] at hres'
    simp only [Except.ok.injEq, Option.some.injEq] at hres'
    rw [hres']
  | query hseen => exact absurd rfl (hparsed _ (h.parsed _ hseen))
  | operation hseen => exact absurd rfl (hparsed _ (h.parsed _ hseen))

/-- The CTE of a query holds the rows of the query. -/
theorem Built.table_query (h : Built queries seen ctes) {name : String} {query : TraceQuery}
    {resource : Option (String → Bool)} {filter : Span → Bool} {dependsOn : List String}
    (hquery : findQuery queries name = some query) (hres : query.resourceStatement = .ok resource)
    (hfilter : query.whereClause = .ok filter)
    (hnode : ⟨name, .query (resource.map fun _ => resourceFilterCTEName name) filter, dependsOn⟩ ∈
      ctes) :
    evalRowCTEs stored ctes name = some (.spans .stored (query.rows stored)) := by
  refine (h.table stored hnode).trans ?_
  cases resource with
  | none => simp [evalRows, TraceQuery.rows, hres, hfilter]
  | some selects =>
    -- the resource filter is bound, since the query's statement refers to it
    obtain ⟨before, after, heq⟩ := List.append_of_mem hnode
    have hearlier := h.refersEarlier (before.map fun node => (node.name, node)) _
      (after.map fun node => (node.name, node)) (by rw [heq, List.map_append, List.map_cons])
      (resourceFilterCTEName name) (by simp [CTESQL.references])
    rw [List.map_map] at hearlier
    obtain ⟨node, hbefore, hname⟩ := List.mem_map.mp hearlier
    have hmem : node ∈ ctes := by
      rw [heq]
      exact List.mem_append_left _ hbefore
    have htable := h.table stored hmem
    rw [h.resourceFilter hquery hres hmem hname, evalRows] at htable
    have hselects : selectsOf (evalRowCTEs stored ctes) (resourceFilterCTEName name) =
        some selects := by
      have hname' : node.name = resourceFilterCTEName name := hname
      rw [hname'] at htable
      simp [selectsOf, htable]
    simp [evalRows, TraceQuery.rows, hres, hfilter, hselects]

/-- One CTE of a sub-expression: if the tables of its operands hold each span once, it does so
exactly if its statement finds single partners. -/
theorem Built.holdsEachOnce_iff (h : Built queries seen ctes)
    (hleaf : ∀ name, .queryRef name ∈ seen → ∀ query, findQuery queries name = some query →
      EachOnce Span.key (query.rows stored)) (hnode : node ∈ ctes) {expr : TraceOperand}
    (hexpr : expr ∈ seen) (hname : cteName expr = node.name)
    (hoperands : ∀ operand ∈ seen, cteName operand ∈ node.sql.references →
      HoldsEachOnce (evalRowCTEs stored ctes) (cteName operand)) :
    HoldsEachOnce (evalRowCTEs stored ctes) node.name ↔
      SinglePartners stored (evalRowCTEs stored ctes) node.sql := by
  have hstored := h.table_stored stored
  have hvalue := h.table stored hnode
  cases h.builtFor node hnode with
  | allSpans => exact holdsEachOnce_spans_iff hstored
  | resourceFilter hseen =>
    exact absurd hname (cteName_ne_resourceFilter (h.parsed expr hexpr) _)
  | @query name query resource filter dependsOn hseen hquery hres hfilter =>
    have honce := hleaf name hseen query hquery
    have htable := h.table_query stored hquery hres hfilter hnode
    exact iff_of_true ⟨_, _, htable, honce⟩ trivial
  | @operation op left right hseen hleft hright =>
    rcases hright with hright | ⟨rfl, rfl⟩
    · have hne : cteName right ≠ "" := cteName_ne_empty (h.parsed right hright)
      have hreads : cteName left ∈ (operatorNode op left right).sql.references ∧
          cteName right ∈ (operatorNode op left right).sql.references := by
        cases op <;> simp [operatorNode, operatorSQL, CTESQL.references, hne]
      exact holdsEachOnce_binary hne hstored (hoperands left hleft hreads.1)
        (hoperands right hright hreads.2) hvalue
    · have hreads : cteName left ∈ (operatorNode .not left .nil).sql.references := by
        simp [operatorNode, operatorSQL, CTESQL.references, cteName]
      exact holdsEachOnce_unaryNot hstored (hoperands left hleft hreads) hvalue

end Walk

/-! ## The whole expression -/

theorem queryRef_mem_subexpressions {expr : TraceOperand} (h : .queryRef name ∈ subexpressions expr) :
   name ∈ collectReferencedQueries expr := by
  induction expr with
  | nil => simp [subexpressions] at h
  | queryRef other => simpa [subexpressions, collectReferencedQueries] using h
  | operation op left right ihl ihr =>
    rw [mem_collectReferencedQueries_operation]
    simp only [subexpressions, List.mem_cons, List.mem_append, reduceCtorEq, false_or] at h
    rcases h with h | h
    · exact .inr (ihr h)
    · exact .inl (ihl h)

/-- Over queries that exist, build and return each span at most once: the CTE of every
sub-expression holds each span once, and the aggregations over the root's are over distinct spans,
exactly if the statement of each of these CTEs finds single partners in the tables before it. -/
theorem eachSpanOnce_iff (stored : List Span) {composite : List (String × TraceQuery)}
    {expr : TraceOperand} (hexpr : Parsed expr) (hqueries : QueriesBuild composite expr)
    (hleaf : ∀ name ∈ collectReferencedQueries expr, ∀ query,
      findQuery composite name = some query → EachOnce Span.key (query.rows stored)) :
    ∃ b, buildFromComposite composite expr = .ok (cteName expr, b) ∧
      (((∀ e ∈ subexpressions expr, HoldsEachOnce (evalRowCTEs stored b.ctes) (cteName e)) ∧
          AggregatesSpans (evalRowCTEs stored b.ctes) (cteName expr)) ↔
        ∀ e ∈ subexpressions expr, ∀ node ∈ b.ctes, node.name = cteName e →
          SinglePartners stored (evalRowCTEs stored b.ctes) node.sql) := by
  obtain ⟨b, hbuild, h⟩ := buildFromComposite_visits (@built_visits composite) hexpr hqueries
  have hleaf' : ∀ name, .queryRef name ∈ subexpressions expr → ∀ query,
      findQuery composite name = some query → EachOnce Span.key (query.rows stored) :=
    fun name hname => hleaf name (queryRef_mem_subexpressions hname)
  refine ⟨b, hbuild, ⟨?_, fun hsingle => ?_⟩⟩
  · rintro ⟨honce, -⟩ e he node hnode hname
    refine (h.holdsEachOnce_iff stored hleaf' hnode he hname.symm fun operand hoperand _ =>
      honce operand hoperand).mp ?_
    rw [hname]
    exact honce e he
  · -- along the list, each CTE after those it refers to
    have hall : ∀ entry ∈ b.ctes.map fun node => (node.name, node),
        ∀ e ∈ subexpressions expr, cteName e = entry.1 →
          HoldsEachOnce (evalRowCTEs stored b.ctes) entry.1 := by
      refine ReadsEarlier.induction h.refersEarlier fun entry hentry ih e he hname => ?_
      obtain ⟨node, hnode, rfl⟩ := List.mem_map.mp hentry
      refine (h.holdsEachOnce_iff stored hleaf' hnode he hname fun operand hoperand href => ?_).mpr
        (hsingle e he node hnode hname.symm)
      obtain ⟨entry, _, heq, hentry⟩ := ih _ (List.mem_append_left _ href)
      rw [← heq]
      exact hentry operand hoperand heq.symm
    have honce : ∀ e ∈ subexpressions expr,
        HoldsEachOnce (evalRowCTEs stored b.ctes) (cteName e) := by
      intro e he
      obtain ⟨node, hnode, hname⟩ := List.mem_map.mp (h.named e he)
      exact hname ▸ hall _ (List.mem_map_of_mem hnode) e he hname.symm
    exact ⟨honce, (honce expr (mem_subexpressions_self hexpr.ne_nil)).aggregatesSpans⟩

/-! ## A trace with two spans of the right side -/

/-- A root span and two of its children. -/
def familyTrace : List Span :=
  [⟨"t", "a", "", "", []⟩, ⟨"t", "b1", "a", "", []⟩, ⟨"t", "b2", "a", "", []⟩]

def rootQueries : List (String × TraceQuery) :=
  [("A", ⟨.ok (), .ok none, .ok fun s => s.parentSpanID == ""⟩),
    ("B", ⟨.ok (), .ok none, .ok fun s => s.parentSpanID == "a"⟩)]

def rootAnd : TraceOperand := .operation .and (.queryRef "A") (.queryRef "B")

theorem rootAnd_parsed : Parsed rootAnd :=
  .binary _ (.queryRef (by decide)) (.queryRef (by decide))

theorem rootAnd_queriesBuild : QueriesBuild rootQueries rootAnd := by
  intro name hname
  have hnames : name = "A" ∨ name = "B" := by
    simpa [rootAnd, collectReferencedQueries] using hname
  rcases hnames with rfl | rfl
  · exact ⟨_, rfl, rfl, ⟨_, rfl⟩, _, rfl⟩
  · exact ⟨_, rfl, rfl, ⟨_, rfl⟩, _, rfl⟩

theorem rootAnd_leaves : ∀ name ∈ collectReferencedQueries rootAnd, ∀ query,
    findQuery rootQueries name = some query → EachOnce Span.key (query.rows familyTrace) := by
  intro name hname query hquery
  have hnames : name = "A" ∨ name = "B" := by
    simpa [rootAnd, collectReferencedQueries] using hname
  rcases hnames with rfl | rfl
  · rw [← Option.some.inj hquery]
    decide
  · rw [← Option.some.inj hquery]
    decide

theorem eachSpanOnce_rootAnd :
    ∃ b, buildFromComposite rootQueries rootAnd = .ok (cteName rootAnd, b) ∧
      (((∀ e ∈ subexpressions rootAnd,
            HoldsEachOnce (evalRowCTEs familyTrace b.ctes) (cteName e)) ∧
          AggregatesSpans (evalRowCTEs familyTrace b.ctes) (cteName rootAnd)) ↔
        ∀ e ∈ subexpressions rootAnd, ∀ node ∈ b.ctes, node.name = cteName e →
          SinglePartners familyTrace (evalRowCTEs familyTrace b.ctes) node.sql) :=
  eachSpanOnce_iff familyTrace rootAnd_parsed rootAnd_queriesBuild rootAnd_leaves

/-- `A && B`: each query returns its spans once, and the join returns the root span for each of its
two children. -/
theorem rootAnd_repeats :
    parseExpression "A && B" = .ok rootAnd ∧ QueriesBuild rootQueries rootAnd ∧
      (∀ name ∈ collectReferencedQueries rootAnd, ∀ query,
        findQuery rootQueries name = some query →
          EachOnce Span.key (query.rows familyTrace)) ∧
      ∃ b, buildFromComposite rootQueries rootAnd = .ok ("A_AND_B", b) ∧
        rowsOf (evalRowCTEs familyTrace b.ctes) "A_AND_B" =
          some (.stored, [⟨"t", "a", "", "", []⟩, ⟨"t", "a", "", "", []⟩]) ∧
        ¬ HoldsEachOnce (evalRowCTEs familyTrace b.ctes) "A_AND_B" := by
  refine ⟨by decide +kernel, rootAnd_queriesBuild, rootAnd_leaves, ?_⟩
  obtain ⟨b, hbuild, -⟩ := buildFromComposite_visits (@built_visits rootQueries) rootAnd_parsed
    rootAnd_queriesBuild
  have hname : cteName rootAnd = "A_AND_B" := by decide +kernel
  have hrows : ((buildFromComposite rootQueries rootAnd).toOption.bind fun out =>
      rowsOf (evalRowCTEs familyTrace out.2.ctes) out.1) =
        some (.stored, [⟨"t", "a", "", "", []⟩, ⟨"t", "a", "", "", []⟩]) := by
    decide +kernel
  rw [hbuild, hname] at hrows
  refine ⟨b, hname ▸ hbuild, hrows, ?_⟩
  rintro ⟨columns, rows, htable, honce⟩
  have heq := (rowsOf_eq htable).symm.trans hrows
  rw [(Prod.mk.inj (Option.some.inj heq)).2] at honce
  exact absurd honce (by decide)

end Signoz.TraceOperator
