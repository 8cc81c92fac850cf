import Signoz.TraceOperator.Walk

/-!
# The CTE of the root

What the walk over an expression leaves in the CTEs. `Emitted` relates the CTEs so far to the
sub-expressions that have been visited, the last one first, and every visit keeps it
(`emitted_visits`). The CTE of the root holds what the
expression denotes when it is read by names; that is what the expression denotes only if no name
hides a different meaning (`rootCTE_denotes_iff`), as one does in `nestedParents_share_a_name`.
-/

namespace Signoz.TraceOperator

open Lib.Bindings TraceOperatorCTEBuilder

/-! ## The walk -/

/-- The CTEs so far and the sub-expressions visited so far, the last one first. -/
structure Emitted (all : Set Span) (queries : List (String × TraceQuery))
    (seen : List TraceOperand) (ctes : List CTENode) : Prop where
  parsed : ∀ expr ∈ seen, Parsed expr
  bound : ∀ expr, Parsed expr → (cteName expr ∈ ctes.map CTENode.name ↔
    cteName expr = "all_spans" ∨ ∃ first ∈ seen, cteName first = cteName expr)
  refersEarlier : RefersEarlier ctes
  named : ∀ name, name ∈ "all_spans" :: seen.map cteName → name ∈ ctes.map CTENode.name
  stored : evalCTEs all ctes "all_spans" = some (.spans .withServiceName all)
  value : ∀ expr ∈ seen, ∃ t, standsFor seen (cteName expr) = some t ∧
    evalCTEs all ctes (cteName expr) =
      (emittedSpans all (namedSpans all queries) t).map (.spans t.columns)

variable {all : Set Span} {queries : List (String × TraceQuery)} {seen : List TraceOperand}
  {ctes : List CTENode}

theorem Emitted.start : Emitted all queries [] (buildAllSpansCTE .empty).ctes where
  parsed := by simp
  bound := by simp [buildAllSpansCTE, empty, eq_comm]
  refersEarlier := RefersEarlier.concat (readsEarlier_nil _) (by simp [CTESQL.references])
  named := by simp [buildAllSpansCTE, empty]
  stored := by
    simp [buildAllSpansCTE, empty, evalCTEs, Lib.Bindings.evalBindings, CTENode.binding, evalCTE]
  value := by simp

/-- An expression whose name is bound adds no CTE. -/
theorem Emitted.visit_bound {expr : TraceOperand} (h : Emitted all queries seen ctes)
    (hexpr : Parsed expr) (hbound : cteName expr ∈ ctes.map CTENode.name) :
    Emitted all queries (expr :: seen) ctes where
  parsed := List.forall_mem_cons.mpr ⟨hexpr, h.parsed⟩
  bound := by
    intro e he
    rw [h.bound e he]
    constructor
    · rintro (hall | ⟨first, hmem, hname⟩)
      · exact .inl hall
      · exact .inr ⟨first, List.mem_cons_of_mem _ hmem, hname⟩
    · rintro (hall | ⟨first, hmem, hname⟩)
      · exact .inl hall
      · rcases List.mem_cons.mp hmem with rfl | hmem
        · rw [← hname]
          exact (h.bound first hexpr).mp hbound
        · exact .inr ⟨first, hmem, hname⟩
  refersEarlier := h.refersEarlier
  named := by
    intro name hname
    simp only [List.map_cons, List.mem_cons] at hname
    rcases hname with rfl | rfl | hname
    · exact h.named _ List.mem_cons_self
    · exact hbound
    · exact h.named _ (List.mem_cons_of_mem _ hname)
  stored := h.stored
  value := by
    intro e he
    cases hseen : standsFor seen (cteName e) with
    | some t =>
      refine ⟨t, standsFor_cons_of_some expr hseen, ?_⟩
      obtain ⟨_, first, _, heq, hname, _⟩ := standsFor_eq_some hseen
      obtain ⟨t', ht', hval⟩ := h.value first (by simp [heq])
      rw [hname] at ht' hval
      rw [hseen] at ht'
      rw [hval, Option.some.inj ht']
    | none =>
      -- the name is new among the sub-expressions, so it can only be that of the stored spans
      have hnew := standsFor_eq_none_iff.mp hseen
      have heq : e = expr := by
        rcases List.mem_cons.mp he with rfl | he
        · rfl
        · exact absurd rfl (hnew e he)
      subst heq
      have hall : cteName e = "all_spans" :=
        ((h.bound e hexpr).mp hbound).resolve_right fun ⟨first, hmem, hname⟩ =>
          hnew first hmem hname
      have href := eq_queryRef_of_cteName hexpr hall count_underscore_reserved.1
      refine ⟨_, standsFor_cons_of_none hseen, ?_⟩
      rw [hall, h.stored, href]
      simp [withOperands, emittedSpans, namedSpans, TraceOperand.columns]

/-- An expression with a new name is the one its CTE is built for. -/
theorem Emitted.visit_new {expr : TraceOperand} {ctes' : List CTENode}
    (h : Emitted all queries seen ctes) (hexpr : Parsed expr)
    (hnew : cteName expr ∉ ctes.map CTENode.name) (hearlier : RefersEarlier ctes')
    (hnames : ∀ e, Parsed e → (cteName e ∈ ctes'.map CTENode.name ↔
      cteName e = cteName expr ∨ cteName e ∈ ctes.map CTENode.name))
    (hsub : ∀ name ∈ ctes.map CTENode.name, name ∈ ctes'.map CTENode.name)
    (hsame : ∀ e, Parsed e → cteName e ≠ cteName expr →
      evalCTEs all ctes' (cteName e) = evalCTEs all ctes (cteName e))
    (hvalue : evalCTEs all ctes' (cteName expr) = (emittedSpans all (namedSpans all queries)
      (withOperands (standsFor seen) expr)).map
        (.spans (withOperands (standsFor seen) expr).columns)) :
    Emitted all queries (expr :: seen) ctes' := by
  have hnone : standsFor seen (cteName expr) = none :=
    standsFor_eq_none_iff.mpr fun e he hname =>
      hnew ((h.bound expr hexpr).mpr (.inr ⟨e, he, hname⟩))
  have hallspans : cteName (.queryRef "all_spans") ≠ cteName expr := fun heq =>
    hnew (heq ▸ h.named _ List.mem_cons_self)
  refine ⟨List.forall_mem_cons.mpr ⟨hexpr, h.parsed⟩, ?_, hearlier, ?_, ?_, ?_⟩
  · intro e he
    rw [hnames e he, h.bound e he]
    simp only [List.mem_cons, exists_eq_or_imp]
    constructor
    · rintro (hname | hname | hname)
      · exact .inr (.inl hname.symm)
      · exact .inl hname
      · exact .inr (.inr hname)
    · rintro (hname | hname | hname)
      · exact .inr (.inl hname)
      · exact .inl hname.symm
      · exact .inr (.inr hname)
  · intro name hname
    simp only [List.map_cons, List.mem_cons] at hname
    rcases hname with rfl | rfl | hname
    · exact hsub _ (h.named _ List.mem_cons_self)
    · exact (hnames expr hexpr).mpr (.inl rfl)
    · exact hsub _ (h.named _ (List.mem_cons_of_mem _ hname))
  · exact (hsame (.queryRef "all_spans") (.queryRef isQueryName_reserved) hallspans).trans h.stored
  · intro e he
    rcases List.mem_cons.mp he with rfl | he
    · exact ⟨_, standsFor_cons_of_none hnone, hvalue⟩
    · by_cases hname : cteName e = cteName expr
      · exact absurd hname (standsFor_eq_none_iff.mp hnone e he)
      · obtain ⟨t, ht, hval⟩ := h.value e he
        exact ⟨t, standsFor_cons_of_some expr ht,
          (hsame e (h.parsed e he) hname).trans hval⟩

/-! ### A query -/

/-- A query of a new name. -/
theorem Emitted.query {b : TraceOperatorCTEBuilder} {name : String} {query : TraceQuery}
    {resource : Option (String → Bool)} {filter : Span → Bool}
    (h : Emitted all queries seen b.ctes) (hname : isQueryName name.toList = true)
    (hnew : name ∉ b.ctes.map CTENode.name) (hquery : findQuery queries name = some query)
    (hres : query.resourceStatement = .ok resource) (hfilter : query.whereClause = .ok filter) :
    Emitted all queries (.queryRef name :: seen) (addQueryCTEs b name resource filter).ctes := by
  have hne : name ≠ "all_spans" := fun heq => hnew (heq ▸ h.named _ List.mem_cons_self)
  refine h.visit_new (.queryRef hname) hnew (refersEarlier_addQueryCTEs h.refersEarlier)
    ?_ ?_ ?_ ?_
  · intro e he
    rw [mem_addQueryCTEs]
    have := cteName_ne_resourceFilter he name
    simp only [this, and_false, false_or]
    rfl
  · exact fun n hn => mem_addQueryCTEs.mpr (.inr (.inr hn))
  · exact fun e he hname' => evalCTEs_addQueryCTEs_of_ne hname'
      (cteName_ne_resourceFilter he name)
  · refine (evalCTEs_addQueryCTEs hres hfilter).trans ?_
    simp [withOperands, emittedSpans, namedSpans, hne, querySpans, hquery, TraceOperand.columns]

/-! ### An operator -/

/-- The value of an operand that has been visited. -/
theorem Emitted.operand (h : Emitted all queries seen ctes) {operand : TraceOperand}
    (hmem : operand ∈ seen) :
    evalCTEs all ctes (cteName operand) = (emittedSpans all (namedSpans all queries)
        (operandAsNamed (standsFor seen) operand)).map
          (.spans (operandAsNamed (standsFor seen) operand).columns) ∧
      (operandAsNamed (standsFor seen) operand = .queryRef "up" ↔ cteName operand = "up") ∧
      operandAsNamed (standsFor seen) operand ≠ .nil := by
  obtain ⟨t, ht, hval⟩ := h.value operand hmem
  have hread : operandAsNamed (standsFor seen) operand = t := by
    simp [operandAsNamed, (h.parsed operand hmem).ne_nil, ht]
  rw [hread]
  refine ⟨hval, standsFor_eq_queryRef_iff h.parsed ht count_underscore_reserved.2, ?_⟩
  obtain ⟨_, first, earlier, heq, _, rfl⟩ := standsFor_eq_some ht
  exact withOperands_ne_nil (h.parsed first (by simp [heq])).ne_nil _

/-- An operation of a new name on operands that have been visited. -/
theorem Emitted.operation {op : TraceOperatorType} {left right : TraceOperand}
    (h : Emitted all queries seen ctes) (hexpr : Parsed (.operation op left right))
    (hleft : left ∈ seen) (hright : right ∈ seen ∨ op = .not ∧ right = .nil)
    (hnew : cteName (.operation op left right) ∉ ctes.map CTENode.name) :
    Emitted all queries (.operation op left right :: seen)
      (ctes ++ [operatorNode op left right]) := by
  have hnamed : ∀ e ∈ seen, cteName e ∈ ctes.map CTENode.name := fun e he =>
    h.named _ (List.mem_cons_of_mem _ (List.mem_map_of_mem he))
  have hstored := h.named _ List.mem_cons_self
  obtain ⟨hlval, hlup, _⟩ := h.operand hleft
  have hrefs : ∀ name ∈ (operatorNode op left right).sql.references ++
      (operatorNode op left right).dependsOn, name ∈ ctes.map CTENode.name := by
    intro name hname
    rcases mem_operator_references hname with rfl | rfl | ⟨rfl, hbinary⟩
    · exact hstored
    · exact hnamed _ hleft
    · rcases hright with hright | ⟨rfl, rfl⟩
      · exact hnamed _ hright
      · exact absurd ⟨rfl, rfl⟩ hbinary
  refine h.visit_new hexpr hnew (RefersEarlier.concat h.refersEarlier hrefs) ?_ ?_ ?_ ?_
  · intro e _
    simp [operatorNode, or_comm]
  · intro n hn
    rw [List.map_append]
    exact List.mem_append_left _ hn
  · intro e _ hne
    rw [evalCTEs_concat, operatorNode, Function.update_of_ne hne]
  · rw [evalCTEs_concat, operatorNode, Function.update_self]
    rcases hright with hright | ⟨rfl, rfl⟩
    · obtain ⟨hrval, hrup, hrnil⟩ := h.operand hright
      rw [evalCTE_operatorSQL h.stored hlval hrval
        (fun rows hrows => emittedSpans_subset (namedSpans_subset all queries) hrows)
        (cteName_ne_empty (h.parsed right hright))]
      simp only [withOperands, emittedSpans, TraceOperand.columns, hrnil, and_false, if_false,
        hlup, hrup]
      split_ifs
      · rfl
      · rfl
      · cases emittedSpans all (namedSpans all queries)
          (operandAsNamed (standsFor seen) left) <;>
        cases emittedSpans all (namedSpans all queries)
          (operandAsNamed (standsFor seen) right) <;> rfl
    · rw [show cteName .nil = "" from rfl, evalCTE_unaryNot h.stored hlval]
      simp [withOperands, emittedSpans, operandAsNamed, TraceOperand.columns, Function.comp_def]

/-! ### The whole walk -/

theorem emitted_visits : Visits queries (Emitted all queries) where
  start := Emitted.start
  bound := Emitted.visit_bound
  query := Emitted.query
  operation := Emitted.operation

/-- The CTE of the root holds the value of the expression as its names read it. -/
theorem buildFromComposite_value (all : Set Span) {composite : List (String × TraceQuery)}
    {expr : TraceOperand} (hexpr : Parsed expr) (hqueries : QueriesBuild composite expr) :
    ∃ b, buildFromComposite composite expr = .ok (cteName expr, b) ∧ RefersEarlier b.ctes ∧
      evalCTEs all b.ctes (cteName expr) =
        (emittedSpans all (namedSpans all composite) (asNamed expr)).map
          (.spans (asNamed expr).columns) := by
  obtain ⟨b, hbuild, hemitted⟩ := buildFromComposite_visits (@emitted_visits all composite) hexpr
    hqueries
  obtain ⟨t, ht, hval⟩ := hemitted.value expr (mem_subexpressions_self hexpr.ne_nil)
  refine ⟨b, hbuild, hemitted.refersEarlier, ?_⟩
  rw [hval]
  simp [asNamed, ht]

/-- Building the CTEs of an expression over queries that exist succeeds, every CTE refers only to
CTEs before it, and the CTE of the root holds the spans the expression denotes exactly if the
expression denotes the same spans when each sub-expression stands for the first one of its name,
`all_spans` for all spans, no `->` of it has the query `up` for an operand, and no `||` of it has
the column `service.name` on one side only. -/
theorem rootCTE_denotes_iff (all : Set Span) (composite : List (String × TraceQuery))
    {expr : TraceOperand} (hexpr : Parsed expr) (hqueries : QueriesBuild composite expr) :
    ∃ root b, buildFromComposite composite expr = .ok (root, b) ∧ RefersEarlier b.ctes ∧
      ((∃ columns, evalCTEs all b.ctes root =
          some (.spans columns (denote all (querySpans all composite) expr))) ↔
        ¬ HidesOperand (asNamed expr) ∧ ¬ MixesColumns (asNamed expr) ∧
          denote all (namedSpans all composite) (asNamed expr) =
            denote all (querySpans all composite) expr) := by
  classical
  obtain ⟨b, hbuild, hearlier, hvalue⟩ := buildFromComposite_value all hexpr hqueries
  refine ⟨cteName expr, b, hbuild, hearlier, ?_⟩
  rw [hvalue, emittedSpans_eq]
  by_cases hhides : HidesOperand (asNamed expr)
  · simp [hhides]
  · by_cases hmixes : MixesColumns (asNamed expr)
    · simp [hmixes]
    · simp [hhides, hmixes]

/-! ## A name that hides a meaning -/

/-- The spans of one trace: `a` is the parent of `b`, and `b` of `c`. -/
def spanOf (spanID parentSpanID : String) : Span := ⟨"t", spanID, parentSpanID, "", []⟩

def chain : Set Span := {s | s = spanOf "a" "" ∨ s = spanOf "b" "a" ∨ s = spanOf "c" "b"}

/-- The query for the span of one id. -/
def spanQuery (spanID : String) : TraceQuery :=
  ⟨.ok (), .ok none, .ok fun s => s.spanID == spanID⟩

def chainQueries : List (String × TraceQuery) :=
  [("A", spanQuery "a"), ("B", spanQuery "b"), ("C", spanQuery "c")]

/-- `((A => B) => C) || (A => (B => C))`. -/
def nestedParents : TraceOperand :=
  .operation .or
    (.operation .directDescendant
      (.operation .directDescendant (.queryRef "A") (.queryRef "B")) (.queryRef "C"))
    (.operation .directDescendant (.queryRef "A")
      (.operation .directDescendant (.queryRef "B") (.queryRef "C")))

theorem nestedParents_parsed : Parsed nestedParents :=
  .binary _ (.binary _ (.binary _ (.queryRef (by decide)) (.queryRef (by decide)))
      (.queryRef (by decide)))
    (.binary _ (.queryRef (by decide))
      (.binary _ (.queryRef (by decide)) (.queryRef (by decide))))

theorem chainQueries_build {expr : TraceOperand}
    (h : ∀ name ∈ collectReferencedQueries expr, name ∈ ["A", "B", "C"]) :
    QueriesBuild chainQueries expr := by
  intro name hname
  have hbuilds : ∀ id, (spanQuery id).Builds := fun id => ⟨rfl, ⟨_, rfl⟩, _, rfl⟩
  have hmem := h name hname
  simp only [List.mem_cons, List.not_mem_nil, or_false] at hmem
  rcases hmem with rfl | rfl | rfl
  · exact ⟨_, rfl, hbuilds _⟩
  · exact ⟨_, rfl, hbuilds _⟩
  · exact ⟨_, rfl, hbuilds _⟩

theorem rootCTE_denotes_parents :
    ∃ root b, buildFromComposite chainQueries
        (.operation .directDescendant (.queryRef "A") (.queryRef "B")) = .ok (root, b) ∧
      RefersEarlier b.ctes ∧
      ∃ columns, evalCTEs chain b.ctes root =
        some (.spans columns (denote chain (querySpans chain chainQueries)
          (.operation .directDescendant (.queryRef "A") (.queryRef "B")))) := by
  obtain ⟨root, b, hbuild, hearlier, hiff⟩ := @rootCTE_denotes_iff chain chainQueries
    (.operation .directDescendant (.queryRef "A") (.queryRef "B"))
    (.binary _ (.queryRef (by decide)) (.queryRef (by decide)))
    (chainQueries_build (by decide))
  have hread : asNamed (.operation .directDescendant (.queryRef "A") (.queryRef "B")) =
      .operation .directDescendant (.queryRef "A") (.queryRef "B") := by decide +kernel
  refine ⟨root, b, hbuild, hearlier, hiff.mpr ⟨?_, ?_, ?_⟩⟩
  · simp [hread, HidesOperand]
  · simp [hread, MixesColumns]
  · simp [hread, denote, namedSpans]

/-- Both halves of the union get the name `A_DIR_DESC_B_DIR_DESC_C`, so the second is never built:
the span `a` is a parent of a parent, but no parent both of a `b` and of a `c`. -/
theorem nestedParents_share_a_name :
    parseExpression "((A => B) => C) || (A => (B => C))" = .ok nestedParents ∧
      ∃ root b, buildFromComposite chainQueries nestedParents = .ok (root, b) ∧
        ¬ ∃ columns, evalCTEs chain b.ctes root =
          some (.spans columns (denote chain (querySpans chain chainQueries) nestedParents)) := by
  refine ⟨by decide +kernel, ?_⟩
  obtain ⟨b, hbuild, _, hvalue⟩ := buildFromComposite_value chain nestedParents_parsed
    (chainQueries_build (by decide))
  refine ⟨_, b, hbuild, ?_⟩
  have hnamed : asNamed nestedParents = .operation .or
      (.operation .directDescendant
        (.operation .directDescendant (.queryRef "A") (.queryRef "B")) (.queryRef "C"))
      (.operation .directDescendant
        (.operation .directDescendant (.queryRef "A") (.queryRef "B")) (.queryRef "C")) := by
    decide +kernel
  have hleaf : ∀ id, (spanQuery id).spans chain = {s | s ∈ chain ∧ s.spanID = id} := by
    intro id
    simp [spanQuery, TraceQuery.spans]
  have hA : findQuery chainQueries "A" = some (spanQuery "a") := rfl
  have hB : findQuery chainQueries "B" = some (spanQuery "b") := rfl
  have hC : findQuery chainQueries "C" = some (spanQuery "c") := rfl
  -- the span `a` is denoted, through its child `b` and its grandchild `c`
  have hmem : spanOf "a" "" ∈ denote chain (querySpans chain chainQueries) nestedParents := by
    simp only [denote, operatorSpans, querySpans, hA, hB, hC, hleaf, nestedParents]
    refine Set.mem_union_right _ ⟨⟨.inl rfl, rfl⟩, spanOf "b" "a", ⟨⟨.inr (.inl rfl), rfl⟩, ?_⟩,
      rfl, rfl⟩
    exact ⟨spanOf "c" "b", ⟨.inr (.inr rfl), rfl⟩, rfl, rfl⟩
  -- but it is no parent of `c`
  have hnot : spanOf "a" "" ∉ denote chain (namedSpans chain chainQueries)
      (asNamed nestedParents) := by
    rw [hnamed]
    simp only [denote, operatorSpans, namedSpans, querySpans, hA, hB, hC, hleaf]
    rintro (⟨_, c, ⟨hc, hid⟩, _, hparent⟩ | ⟨_, c, ⟨hc, hid⟩, _, hparent⟩) <;>
      rcases hc with rfl | rfl | rfl <;> revert hid hparent <;> decide
  rw [hvalue, emittedSpans_eq]
  rintro ⟨columns, heq⟩
  split at heq
  · simp at heq
  · simp only [Option.map_some, Option.some.injEq, Table.spans.injEq] at heq
    exact hnot (heq.2 ▸ hmem)

/-- `(NOT A) || B`: the rows of `all_spans` and those of a query are not of the same columns. -/
example : MixesColumns (asNamed
    (.operation .or (.operation .not (.queryRef "A") .nil) (.queryRef "B"))) := by
  have hread : asNamed (.operation .or (.operation .not (.queryRef "A") .nil) (.queryRef "B")) =
      .operation .or (.operation .not (.queryRef "A") .nil) (.queryRef "B") := by decide +kernel
  simp [hread, MixesColumns, TraceOperand.columns]

end Signoz.TraceOperator
