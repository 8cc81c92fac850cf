import Signoz.TraceOperator.SharedNames

/-!
# The walk over an expression

`buildExpressionCTEs` visits the sub-expressions, and a visit either finds a CTE of its name or adds
one (`buildQueryCTE_cases`, `buildOperatorCTE_cases`). `Visits` is what a relation between the
sub-expressions visited so far and the CTEs so far needs to be kept by every visit, and
`buildFromComposite_visits` is the run: the relation holds at the end. `Built` is such a relation.
It says what each CTE of the list was built for.
-/

namespace Signoz.TraceOperator

open Lib.Bindings TraceOperatorCTEBuilder

/-! ## The visits -/

variable {b : TraceOperatorCTEBuilder} {resource : Option (String → Bool)} {filter : Span → Bool}

theorem mem_addQueryCTEs {name other : String} :
    other ∈ (addQueryCTEs b name resource filter).ctes.map CTENode.name ↔
      other = name ∨ (resource.isSome = true ∧ other = resourceFilterCTEName name) ∨
        other ∈ b.ctes.map CTENode.name := by
  cases resource with
  | none => simp [addQueryCTEs, or_comm]
  | some selects =>
    simp only [addQueryCTEs, addCTE_ctes, List.map_append, List.map_cons, List.map_nil,
      List.mem_append, List.mem_singleton, Option.isSome_some, true_and]
    tauto

variable {name : String}

theorem refersEarlier_addQueryCTEs (h : RefersEarlier b.ctes) :
    RefersEarlier (addQueryCTEs b name resource filter).ctes := by
  cases resource with
  | none => exact RefersEarlier.concat h (by simp [CTESQL.references])
  | some selects =>
    have hfilter : RefersEarlier
        (b.ctes ++ [⟨resourceFilterCTEName name, .resourceFilter selects, []⟩]) :=
      RefersEarlier.concat h (by simp [CTESQL.references])
    exact RefersEarlier.concat hfilter (by simp [CTESQL.references])

/-- An operator's statement refers to its operands and to the stored spans. -/
theorem mem_operator_references {op : TraceOperatorType} {leftCTE rightCTE name : String}
    (h : name ∈ (operatorSQL op leftCTE rightCTE).references ++
      operatorDependsOn op leftCTE rightCTE) :
    name = "all_spans" ∨ name = leftCTE ∨ name = rightCTE ∧ ¬ (op = .not ∧ rightCTE = "") := by
  cases op with
  | not =>
    by_cases hempty : rightCTE = ""
    · simp [operatorSQL, operatorDependsOn, CTESQL.references, hempty] at h ⊢
      tauto
    · simp [operatorSQL, operatorDependsOn, CTESQL.references, hempty] at h ⊢
      tauto
  | directDescendant =>
    simp [operatorSQL, operatorDependsOn, CTESQL.references] at h ⊢
    tauto
  | indirectDescendant =>
    simp [operatorSQL, operatorDependsOn, CTESQL.references] at h ⊢
    tauto
  | and =>
    simp [operatorSQL, operatorDependsOn, CTESQL.references] at h ⊢
    tauto
  | or =>
    simp [operatorSQL, operatorDependsOn, CTESQL.references] at h ⊢
    tauto

/-- Visiting a query that exists and builds: its name is bound, or its CTEs are added. -/
theorem buildQueryCTE_cases {collected : List (String × TraceQuery)} {query : TraceQuery}
    (hquery : findQuery collected name = some query) (hkeys : query.fieldKeys = .ok ())
    (hres : query.resourceStatement = .ok resource) (hfilter : query.whereClause = .ok filter) :
    (name ∈ b.ctes.map CTENode.name ∧
        buildQueryCTE collected b name = .ok (name, b.setQueryCTE name name)) ∨
      (name ∉ b.ctes.map CTENode.name ∧ buildQueryCTE collected b name =
        .ok (name, addQueryCTEs (b.setQueryCTE name name) name resource filter)) := by
  cases hbound : (b.setQueryCTE name name).hasCTE name with
  | true => exact .inl ⟨hasCTE_iff.mp hbound, by simp [buildQueryCTE, hquery, hbound]⟩
  | false =>
    refine .inr ⟨fun hmem => ?_, ?_⟩
    · rw [hasCTE_iff.mpr (by exact hmem)] at hbound
      simp at hbound
    · simp [buildQueryCTE, hquery, hbound, hkeys, hres, hfilter, liftUpstream, bind,
        Except.bind, pure, Except.pure]

/-- The CTE of an operation on the CTEs of two operands. -/
def operatorNode (op : TraceOperatorType) (left right : TraceOperand) : CTENode :=
  ⟨cteName (.operation op left right), operatorSQL op (cteName left) (cteName right),
    operatorDependsOn op (cteName left) (cteName right)⟩

/-- Visiting an operation: its name is bound, or its CTE is added. -/
theorem buildOperatorCTE_cases (b : TraceOperatorCTEBuilder) (op : TraceOperatorType)
    (left right : TraceOperand) :
    (cteName (.operation op left right) ∈ b.ctes.map CTENode.name ∧
        (buildOperatorCTE b op (cteName left) (cteName right)).2.ctes = b.ctes) ∨
      (cteName (.operation op left right) ∉ b.ctes.map CTENode.name ∧
        (buildOperatorCTE b op (cteName left) (cteName right)).2.ctes =
          b.ctes ++ [operatorNode op left right]) := by
  cases hbound : b.hasCTE (operatorCTEName op (cteName left) (cteName right)) with
  | true => exact .inl ⟨hasCTE_iff.mp hbound, by simp [buildOperatorCTE, hbound]⟩
  | false =>
    refine .inr ⟨fun hmem => ?_, ?_⟩
    · rw [hasCTE_iff.mpr (by exact hmem)] at hbound
      simp at hbound
    · simp [buildOperatorCTE, hbound, operatorNode, cteName]

/-! ## The run -/

/-- A relation between the sub-expressions visited so far, the last one first, and the CTEs so far
that every visit keeps. -/
structure Visits (queries : List (String × TraceQuery))
    (Inv : List TraceOperand → List CTENode → Prop) : Prop where
  start : Inv [] (buildAllSpansCTE .empty).ctes
  bound : ∀ {seen ctes expr}, Inv seen ctes → Parsed expr →
    cteName expr ∈ ctes.map CTENode.name → Inv (expr :: seen) ctes
  query : ∀ {seen} {b : TraceOperatorCTEBuilder} {name query resource filter}, Inv seen b.ctes →
    isQueryName name.toList = true → name ∉ b.ctes.map CTENode.name →
    findQuery queries name = some query → query.resourceStatement = .ok resource →
    query.whereClause = .ok filter →
    Inv (.queryRef name :: seen) (addQueryCTEs b name resource filter).ctes
  operation : ∀ {seen ctes op left right}, Inv seen ctes → Parsed (.operation op left right) →
    left ∈ seen → (right ∈ seen ∨ op = .not ∧ right = .nil) →
    cteName (.operation op left right) ∉ ctes.map CTENode.name →
    Inv (.operation op left right :: seen) (ctes ++ [operatorNode op left right])

section Run

variable {queries collected : List (String × TraceQuery)}
  {Inv : List TraceOperand → List CTENode → Prop} {seen : List TraceOperand}
  {b : TraceOperatorCTEBuilder}

theorem buildQueryCTE_visits (hinv : Visits queries Inv) {name : String} {query : TraceQuery}
    (h : Inv seen b.ctes) (hname : isQueryName name.toList = true)
    (hcollected : findQuery collected name = some query)
    (hquery : findQuery queries name = some query) (hbuilds : query.Builds) :
    ∃ b', buildQueryCTE collected b name = .ok (name, b') ∧
      Inv (.queryRef name :: seen) b'.ctes := by
  obtain ⟨hkeys, ⟨resource, hres⟩, ⟨filter, hfilter⟩⟩ := hbuilds
  rcases buildQueryCTE_cases (b := b) hcollected hkeys hres hfilter with ⟨hmem, hbuild⟩ | ⟨hmem, hbuild⟩
  · exact ⟨_, hbuild, hinv.bound h (.queryRef hname) hmem⟩
  · exact ⟨_, hbuild, hinv.query (b := b.setQueryCTE name name) h hname hmem hquery hres hfilter⟩

theorem buildOperatorCTE_visits (hinv : Visits queries Inv) {op : TraceOperatorType}
    {left right : TraceOperand} (h : Inv seen b.ctes) (hexpr : Parsed (.operation op left right))
    (hleft : left ∈ seen) (hright : right ∈ seen ∨ op = .not ∧ right = .nil) :
    Inv (.operation op left right :: seen)
      (buildOperatorCTE b op (cteName left) (cteName right)).2.ctes := by
  rcases buildOperatorCTE_cases b op left right with ⟨hmem, hctes⟩ | ⟨hmem, hctes⟩
  · rw [hctes]
    exact hinv.bound h hexpr hmem
  · rw [hctes]
    exact hinv.operation h hexpr hleft hright hmem

variable {expr : TraceOperand}

/-- The walk builds the CTEs of an expression over queries that exist and build. -/
theorem buildExpressionCTEs_visits (hinv : Visits queries Inv) (hexpr : Parsed expr)
    (hqueries : ∀ name ∈ collectReferencedQueries expr, ∃ query,
      findQuery collected name = some query ∧ findQuery queries name = some query ∧ query.Builds)
    (h : Inv seen b.ctes) :
    ∃ b', buildExpressionCTEs collected expr b = .ok (cteName expr, b') ∧
      Inv (subexpressions expr ++ seen) b'.ctes := by
  induction hexpr generalizing seen b with
  | @queryRef name valid =>
    obtain ⟨query, hcollected, hquery, hbuilds⟩ :=
      hqueries name (by simp [collectReferencedQueries])
    exact buildQueryCTE_visits hinv h valid hcollected hquery hbuilds
  | @unaryNot operand hoperand ih =>
    obtain ⟨b', hbuild, hemitted⟩ := ih (fun name hname => hqueries name
      (mem_collectReferencedQueries_operation.mpr (.inl hname))) h
    refine ⟨(buildOperatorCTE b' .not (cteName operand) (cteName .nil)).2, ?_, ?_⟩
    · simp only [buildExpressionCTEs, ne_eq, hoperand.ne_nil, not_false_eq_true, if_true, hbuild,
        not_true_eq_false, if_false, bind, Except.bind, pure, Except.pure, Except.ok.injEq]
      exact Prod.ext (buildOperatorCTE_name _ _ _ _) rfl
    · have hmem := List.mem_append_left seen (mem_subexpressions_self hoperand.ne_nil)
      exact buildOperatorCTE_visits hinv hemitted (.unaryNot hoperand) hmem (.inr ⟨rfl, rfl⟩)
  | @binary op left right hleft hright ihl ihr =>
    obtain ⟨bl, hbuildl, hl⟩ := ihl (fun name hname => hqueries name
      (mem_collectReferencedQueries_operation.mpr (.inl hname))) h
    obtain ⟨br, hbuildr, hr⟩ := ihr (fun name hname => hqueries name
      (mem_collectReferencedQueries_operation.mpr (.inr hname))) hl
    refine ⟨(buildOperatorCTE br op (cteName left) (cteName right)).2, ?_, ?_⟩
    · simp only [buildExpressionCTEs, ne_eq, hleft.ne_nil, hright.ne_nil, not_false_eq_true,
        if_true, hbuildl, hbuildr, bind, Except.bind, pure, Except.pure, Except.ok.injEq]
      exact Prod.ext (buildOperatorCTE_name _ _ _ _) rfl
    · have hmeml := List.mem_append_right (subexpressions right)
        (List.mem_append_left seen (mem_subexpressions_self hleft.ne_nil))
      have hmemr := List.mem_append_left (subexpressions left ++ seen)
        (mem_subexpressions_self hright.ne_nil)
      have := buildOperatorCTE_visits hinv hr (.binary op hleft hright) hmeml (.inl hmemr)
      simpa [subexpressions] using this

variable {composite : List (String × TraceQuery)}

/-- A referenced query is found among the collected ones. -/
theorem findQuery_filter {keep : String → Bool} {name : String} (h : keep name = true) :
    findQuery (composite.filter fun query => keep query.1) name = findQuery composite name := by
  simp only [findQuery, ← List.filter_reverse]
  induction composite.reverse with
  | nil => rfl
  | cons query rest ih =>
    obtain ⟨other, query⟩ := query
    by_cases hname : name = other
    · subst hname
      simp [h]
    · have hne : (name == other) = false := by simp [hname]
      cases hkeep : keep other <;> simp [hkeep, List.lookup_cons, hne, ih]

/-- Queries that exist are collected. -/
theorem collectQueries_ok
    (h : ∀ name ∈ collectReferencedQueries expr, ∃ query, findQuery composite name = some query) :
    collectQueries composite expr = .ok
      (composite.filter fun query => (collectReferencedQueries expr).contains query.1) := by
  have hfound : ((collectReferencedQueries expr).find? fun name =>
      !((composite.filter fun query =>
        (collectReferencedQueries expr).contains query.1).map Prod.fst).contains name) = none := by
    rw [List.find?_eq_none]
    intro name hname
    obtain ⟨query, hquery⟩ := h name hname
    obtain ⟨before, after, heq, _⟩ := List.lookup_eq_some_iff.mp hquery
    have hmem : (name, query) ∈ composite := by
      rw [← List.mem_reverse, heq]
      simp
    simp only [List.contains_eq_mem, Bool.not_eq_true', decide_eq_false_iff_not, not_not,
      List.mem_map, List.mem_filter, decide_eq_true_eq]
    exact ⟨(name, query), ⟨hmem, hname⟩, rfl⟩
  simp only [collectQueries, hfound]

/-- Every referenced query exists, and its statements build. -/
def QueriesBuild (composite : List (String × TraceQuery)) (expr : TraceOperand) : Prop :=
  ∀ name ∈ collectReferencedQueries expr,
    ∃ query, findQuery composite name = some query ∧ query.Builds

/-- Building the CTEs of an expression over queries that exist and build succeeds, and a relation
that every visit keeps holds between its sub-expressions and its CTEs. -/
theorem buildFromComposite_visits (hinv : Visits composite Inv) (hexpr : Parsed expr)
    (hqueries : QueriesBuild composite expr) :
    ∃ b, buildFromComposite composite expr = .ok (cteName expr, b) ∧
      Inv (subexpressions expr) b.ctes := by
  obtain ⟨b, hbuild, h⟩ := buildExpressionCTEs_visits hinv hexpr
    (fun name hname => by
      obtain ⟨query, hquery, hbuilds⟩ := hqueries name hname
      have hkeep : (collectReferencedQueries expr).contains name = true := by simpa using hname
      exact ⟨query, (findQuery_filter hkeep).trans hquery, hquery, hbuilds⟩)
    hinv.start
  have hcollect := @collectQueries_ok expr composite fun name hname => by
    obtain ⟨query, hquery, _⟩ := hqueries name hname
    exact ⟨query, hquery⟩
  rw [List.append_nil] at h
  refine ⟨b, ?_, h⟩
  simp only [buildFromComposite, hcollect, bind, Except.bind]
  exact hbuild

end Run

/-! ## The CTE the final query reads -/

theorem addQueryCTEs_queryToCTEName (b : TraceOperatorCTEBuilder) (name : String)
    (resource : Option (String → Bool)) (filter : Span → Bool) :
    (addQueryCTEs b name resource filter).queryToCTEName = b.queryToCTEName := by
  cases resource <;> rfl

theorem buildOperatorCTE_queryToCTEName (b : TraceOperatorCTEBuilder) (op : TraceOperatorType)
    (leftCTE rightCTE : String) :
    (buildOperatorCTE b op leftCTE rightCTE).2.queryToCTEName = b.queryToCTEName := by
  simp only [buildOperatorCTE]
  split <;> rfl

/-- A computation in steps that succeeds: so does its first step, and the rest behind it. -/
theorem bind_eq_ok {ε α β : Type} {x : Except ε α} {f : α → Except ε β} {y : β}
    (h : x >>= f = .ok y) : ∃ a, x = .ok a ∧ f a = .ok y := by
  cases x with
  | error e => cases h
  | ok a => exact ⟨a, rfl, h⟩

variable {queries : List (String × TraceQuery)}

/-- A query that is visited goes under its own name. -/
theorem buildQueryCTE_queryToCTEName {b b' : TraceOperatorCTEBuilder} {queryName root : String}
    (h : buildQueryCTE queries b queryName = .ok (root, b')) :
    b'.queryToCTEName = (queryName, queryName) :: b.queryToCTEName := by
  unfold buildQueryCTE at h
  split at h
  · cases h
  · simp only at h
    split at h
    · obtain ⟨-, rfl⟩ := Prod.mk.inj (Except.ok.inj h)
      rfl
    · obtain ⟨-, -, h⟩ := bind_eq_ok h
      obtain ⟨resource, -, h⟩ := bind_eq_ok h
      obtain ⟨filter, -, h⟩ := bind_eq_ok h
      obtain ⟨-, rfl⟩ := Prod.mk.inj (Except.ok.inj h)
      exact addQueryCTEs_queryToCTEName _ _ _ _

/-- The walk over an operand, which may not be there. -/
def buildOperandCTEs (queries : List (String × TraceQuery)) (operand : TraceOperand)
    (b : TraceOperatorCTEBuilder) : Except BuildError (String × TraceOperatorCTEBuilder) :=
  if operand ≠ .nil then buildExpressionCTEs queries operand b else pure ("", b)

theorem buildExpressionCTEs_operation (queries : List (String × TraceQuery))
    (op : TraceOperatorType) (left right : TraceOperand) (b : TraceOperatorCTEBuilder) :
    buildExpressionCTEs queries (.operation op left right) b =
      buildOperandCTEs queries left b >>= fun l =>
        buildOperandCTEs queries right l.2 >>= fun r => .ok (buildOperatorCTE r.2 op l.1 r.1) := by
  simp only [buildExpressionCTEs, buildOperandCTEs]
  split <;> split <;> rfl

variable {root : String}

/-- An operand that is not there adds no name. -/
theorem buildOperandCTEs_queryToCTEName {operand : TraceOperand}
    (hwalk : ∀ {b b' : TraceOperatorCTEBuilder} {root : String},
      buildExpressionCTEs queries operand b = .ok (root, b') →
        b'.queryToCTEName.lookup name =
          if name ∈ collectReferencedQueries operand then some name
          else b.queryToCTEName.lookup name) {b b' : TraceOperatorCTEBuilder}
    (h : buildOperandCTEs queries operand b = .ok (root, b')) :
    b'.queryToCTEName.lookup name =
      if name ∈ collectReferencedQueries operand then some name
      else b.queryToCTEName.lookup name := by
  unfold buildOperandCTEs at h
  split at h
  · exact hwalk h
  · next hnil =>
    obtain ⟨-, rfl⟩ := Prod.mk.inj (Except.ok.inj h)
    rw [not_not.mp hnil]
    simp [collectReferencedQueries]

/-- After the walk, the queries of the expression go under their own names. -/
theorem buildExpressionCTEs_queryToCTEName {expr : TraceOperand} {b b' : TraceOperatorCTEBuilder}
    (h : buildExpressionCTEs queries expr b = .ok (root, b')) (name : String) :
    b'.queryToCTEName.lookup name =
      if name ∈ collectReferencedQueries expr then some name
      else b.queryToCTEName.lookup name := by
  induction expr generalizing b b' root with
  | nil => cases h
  | queryRef queryName =>
    rw [buildQueryCTE_queryToCTEName h, List.lookup_cons]
    by_cases hname : name = queryName
    · simp [hname, collectReferencedQueries]
    · have hne : (name == queryName) = false := beq_eq_false_iff_ne.mpr hname
      simp [hname, hne, collectReferencedQueries]
  | operation op left right ihl ihr =>
    rw [buildExpressionCTEs_operation] at h
    obtain ⟨⟨leftCTE, bl⟩, hleft, h⟩ := bind_eq_ok h
    obtain ⟨⟨rightCTE, br⟩, hright, h⟩ := bind_eq_ok h
    have hb' : (buildOperatorCTE br op leftCTE rightCTE).2 = b' :=
      congrArg Prod.snd (Except.ok.inj h)
    have hl := buildOperandCTEs_queryToCTEName ihl hleft
    have hr := buildOperandCTEs_queryToCTEName ihr hright
    rw [← hb', buildOperatorCTE_queryToCTEName, hr, hl]
    simp only [mem_collectReferencedQueries_operation]
    split_ifs <;> tauto

/-- The final query reads the root's CTE, or that of any query of the expression; other queries of
the request have no CTE. -/
theorem buildCTEs_selects {composite : List (String × TraceQuery)} {expr : TraceOperand}
    (h : buildFromComposite composite expr = .ok (root, b)) (returnSpansFrom : String) :
    buildCTEs composite expr returnSpansFrom =
      if returnSpansFrom = "" then .ok (root, root, b)
      else if returnSpansFrom ∈ collectReferencedQueries expr then .ok (returnSpansFrom, root, b)
      else .error (.returnSpansFromUnknown returnSpansFrom) := by
  have hlookup : b.queryToCTEName.lookup returnSpansFrom =
      if returnSpansFrom ∈ collectReferencedQueries expr then some returnSpansFrom else none := by
    unfold buildFromComposite at h
    cases hcollect : collectQueries composite expr with
    | error e =>
      rw [hcollect] at h
      cases h
    | ok queries =>
      rw [hcollect] at h
      exact buildExpressionCTEs_queryToCTEName h returnSpansFrom
  simp only [buildCTEs, h, selectFromCTE, hlookup, bind, Except.bind, pure, Except.pure]
  by_cases hempty : returnSpansFrom = ""
  · simp [hempty]
  · by_cases hmem : returnSpansFrom ∈ collectReferencedQueries expr <;> simp [hempty, hmem]

/-! ## What the CTEs are built for -/

theorem resourceFilterCTEName_injective {name other : String}
    (h : resourceFilterCTEName name = resourceFilterCTEName other) : name = other := by
  have happend : "__resource_filter_" ++ name = "__resource_filter_" ++ other := h
  exact (String.append_right_inj _).mp happend

/-- What a CTE was built for, given the sub-expressions visited so far. -/
inductive BuiltFor (queries : List (String × TraceQuery)) (seen : List TraceOperand) :
    CTENode → Prop
  | allSpans : BuiltFor queries seen ⟨"all_spans", .allSpans, []⟩
  | resourceFilter {name : String} {query : TraceQuery} {selects : String → Bool} :
      .queryRef name ∈ seen → findQuery queries name = some query →
      query.resourceStatement = .ok (some selects) →
      BuiltFor queries seen ⟨resourceFilterCTEName name, .resourceFilter selects, []⟩
  | query {name : String} {query : TraceQuery} {resource : Option (String → Bool)}
      {filter : Span → Bool} {dependsOn : List String} : .queryRef name ∈ seen →
      findQuery queries name = some query → query.resourceStatement = .ok resource →
      query.whereClause = .ok filter →
      BuiltFor queries seen
        ⟨name, .query (resource.map fun _ => resourceFilterCTEName name) filter, dependsOn⟩
  | operation {op : TraceOperatorType} {left right : TraceOperand} :
      .operation op left right ∈ seen → left ∈ seen → (right ∈ seen ∨ op = .not ∧ right = .nil) →
      BuiltFor queries seen (operatorNode op left right)

/-- The CTEs so far: names are bound once and before they are referred to, and every CTE was built
for a sub-expression visited. -/
structure Built (queries : List (String × TraceQuery)) (seen : List TraceOperand)
    (ctes : List CTENode) : Prop where
  parsed : ∀ expr ∈ seen, Parsed expr
  named : ∀ expr ∈ seen, cteName expr ∈ ctes.map CTENode.name
  stored : ⟨"all_spans", .allSpans, []⟩ ∈ ctes
  nodup : (ctes.map CTENode.name).Nodup
  refersEarlier : RefersEarlier ctes
  filtered : ∀ name, resourceFilterCTEName name ∈ ctes.map CTENode.name →
    name ∈ ctes.map CTENode.name
  builtFor : ∀ node ∈ ctes, BuiltFor queries seen node

section Built

variable {queries : List (String × TraceQuery)} {seen : List TraceOperand} {ctes : List CTENode}
  {expr : TraceOperand}

theorem BuiltFor.mono {node : CTENode} (h : BuiltFor queries seen node) :
    BuiltFor queries (expr :: seen) node := by
  have hmem : ∀ {e}, e ∈ seen → e ∈ expr :: seen := fun he => List.mem_cons_of_mem _ he
  cases h with
  | allSpans => exact .allSpans
  | resourceFilter hseen hquery hres => exact .resourceFilter (hmem hseen) hquery hres
  | query hseen hquery hres hfilter => exact .query (hmem hseen) hquery hres hfilter
  | operation hseen hleft hright =>
    exact .operation (hmem hseen) (hmem hleft) (hright.imp_left hmem)

/-- The CTEs of a new name: one of that name, and perhaps its resource filter. -/
theorem Built.add {nodes : List CTENode} (h : Built queries seen ctes) (hexpr : Parsed expr)
    (hnew : cteName expr ∉ ctes.map CTENode.name)
    (hnames : ∀ name ∈ nodes.map CTENode.name,
      name = cteName expr ∨ name = resourceFilterCTEName (cteName expr))
    (hnamed : cteName expr ∈ nodes.map CTENode.name) (hnodup : (nodes.map CTENode.name).Nodup)
    (hearlier : RefersEarlier (ctes ++ nodes))
    (hfor : ∀ node ∈ nodes, BuiltFor queries (expr :: seen) node) :
    Built queries (expr :: seen) (ctes ++ nodes) where
  parsed := List.forall_mem_cons.mpr ⟨hexpr, h.parsed⟩
  named := by
    intro e he
    rw [List.map_append, List.mem_append]
    rcases List.mem_cons.mp he with rfl | he
    · exact .inr hnamed
    · exact .inl (h.named e he)
  stored := List.mem_append_left _ h.stored
  nodup := by
    rw [List.map_append, List.nodup_append]
    refine ⟨h.nodup, hnodup, fun name hold other hadded heq => hnew ?_⟩
    subst heq
    -- a bound resource filter goes with a bound query
    rcases hnames name hadded with rfl | rfl
    · exact hold
    · exact h.filtered _ hold
  refersEarlier := hearlier
  filtered := by
    intro name hname
    simp only [List.map_append, List.mem_append] at hname ⊢
    rcases hname with hname | hname
    · exact .inl (h.filtered name hname)
    · rcases hnames _ hname with heq | heq
      · exact absurd heq.symm (cteName_ne_resourceFilter hexpr name)
      · exact .inr (resourceFilterCTEName_injective heq ▸ hnamed)
  builtFor := by
    intro n hn
    rcases List.mem_append.mp hn with hn | hn
    · exact (h.builtFor n hn).mono
    · exact hfor n hn

theorem Built.start : Built queries [] (buildAllSpansCTE .empty).ctes where
  parsed := by simp
  named := by simp
  stored := by simp [buildAllSpansCTE, empty]
  nodup := by simp [buildAllSpansCTE, empty]
  refersEarlier := RefersEarlier.concat (readsEarlier_nil _) (by simp [CTESQL.references])
  filtered := by
    intro name hname
    have hparsed : Parsed (.queryRef "all_spans") := .queryRef isQueryName_reserved
    have hne := cteName_ne_resourceFilter hparsed name
    simp only [buildAllSpansCTE, empty, addCTE_ctes, List.nil_append, List.map_singleton,
      List.mem_singleton] at hname
    exact absurd hname.symm hne
  builtFor := by
    intro node hnode
    simp only [buildAllSpansCTE, empty, addCTE_ctes, List.nil_append,
      List.mem_singleton] at hnode
    exact hnode ▸ .allSpans

/-- A sub-expression whose name is bound adds no CTE. -/
theorem Built.bound (h : Built queries seen ctes) (hexpr : Parsed expr)
    (hmem : cteName expr ∈ ctes.map CTENode.name) : Built queries (expr :: seen) ctes where
  parsed := List.forall_mem_cons.mpr ⟨hexpr, h.parsed⟩
  named := List.forall_mem_cons.mpr ⟨hmem, h.named⟩
  stored := h.stored
  nodup := h.nodup
  refersEarlier := h.refersEarlier
  filtered := h.filtered
  builtFor := fun node hnode => (h.builtFor node hnode).mono

theorem Built.query {b : TraceOperatorCTEBuilder} {name : String} {query : TraceQuery}
    {resource : Option (String → Bool)} {filter : Span → Bool} (h : Built queries seen b.ctes)
    (hname : isQueryName name.toList = true) (hnew : name ∉ b.ctes.map CTENode.name)
    (hquery : findQuery queries name = some query) (hres : query.resourceStatement = .ok resource)
    (hfilter : query.whereClause = .ok filter) :
    Built queries (.queryRef name :: seen) (addQueryCTEs b name resource filter).ctes := by
  have hexpr : Parsed (.queryRef name) := .queryRef hname
  cases resource with
  | none =>
    have hfor := @BuiltFor.query queries (.queryRef name :: seen) name query none filter []
      List.mem_cons_self hquery hres hfilter
    have hearlier := @refersEarlier_addQueryCTEs b none filter name h.refersEarlier
    exact h.add hexpr hnew (by simp [cteName]) (by simp [cteName]) (by simp) hearlier
      (by simpa using hfor)
  | some selects =>
    have hfilterFor := @BuiltFor.resourceFilter queries (.queryRef name :: seen) name query
      selects List.mem_cons_self hquery hres
    have hfor := @BuiltFor.query queries (.queryRef name :: seen) name query (some selects)
      filter [resourceFilterCTEName name] List.mem_cons_self hquery hres hfilter
    have hne : resourceFilterCTEName name ≠ name :=
      (cteName_ne_resourceFilter hexpr name).symm
    have hctes : (addQueryCTEs b name (some selects) filter).ctes = b.ctes ++
        [⟨resourceFilterCTEName name, .resourceFilter selects, []⟩,
          ⟨name, .query (some (resourceFilterCTEName name)) filter,
            [resourceFilterCTEName name]⟩] := by
      simp [addQueryCTEs]
    have hearlier := @refersEarlier_addQueryCTEs b (some selects) filter name h.refersEarlier
    rw [hctes] at hearlier ⊢
    refine h.add hexpr hnew (by simp [cteName]) (by simp [cteName]) (by simp [hne]) hearlier ?_
    simp only [List.mem_cons, List.not_mem_nil, or_false, forall_eq_or_imp, forall_eq]
    exact ⟨hfilterFor, hfor⟩

theorem Built.operation {op : TraceOperatorType} {left right : TraceOperand}
    (h : Built queries seen ctes) (hexpr : Parsed (.operation op left right)) (hleft : left ∈ seen)
    (hright : right ∈ seen ∨ op = .not ∧ right = .nil)
    (hnew : cteName (.operation op left right) ∉ ctes.map CTENode.name) :
    Built queries (.operation op left right :: seen) (ctes ++ [operatorNode op left right]) := by
  have hfor := @BuiltFor.operation queries (.operation op left right :: seen) op left right
    List.mem_cons_self (List.mem_cons_of_mem _ hleft) (hright.imp_left (List.mem_cons_of_mem _))
  refine h.add hexpr hnew (by simp [operatorNode]) (by simp [operatorNode]) (by simp)
    (h.refersEarlier.concat fun name hname => ?_) (by simpa using hfor)
  rcases mem_operator_references hname with rfl | rfl | ⟨rfl, hbinary⟩
  · exact List.mem_map_of_mem h.stored
  · exact h.named _ hleft
  · rcases hright with hright | ⟨rfl, rfl⟩
    · exact h.named _ hright
    · exact absurd ⟨rfl, rfl⟩ hbinary

theorem built_visits : Visits queries (Built queries) where
  start := Built.start
  bound := Built.bound
  query := Built.query
  operation := Built.operation

end Built

end Signoz.TraceOperator
