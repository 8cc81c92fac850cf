import Signoz.FilterQuery.WhereClause

/-!
# Conditions that cannot be built

Which terms of a filter the visitor reaches, and which of them record an error. A branch of an `OR`
is reached only if no branch before it is skipped (`reached`); the visitor's notes are those of the
terms it reaches (`notes_orBranches`), so a filter fails exactly if one of them records an error
(`prepareWhereClause_error_iff`). A comparison whose condition cannot be built gives the literal for
an error, and all operators but `IN`, `BETWEEN` and their negations record it. So such a comparison
fails the filter exactly if it is none of these or another term fails it
(`conditionErrors_surface_iff`).
-/

namespace Signoz.FilterQuery

variable {C F : Type}

/-! ## Visits that record an error -/

/-- The visit notes an error. -/
def Records {α : Type} (m : Visit α) : Prop := ∃ text, Note.error text ∈ m.run.2

section Records

variable {α β : Type}

theorem visit_bind_eq (m : Visit α) (f : α → Visit β) :
    (m >>= f) = (WriterT.mk ((f m.run.1).run.1, m.run.2 ++ (f m.run.1).run.2) : Visit β) := rfl

@[simp] theorem records_pure (a : α) : ¬ Records (pure a : Visit α) := by
  rintro ⟨text, h⟩
  exact absurd h (List.not_mem_nil)

@[simp] theorem records_bind (m : Visit α) (f : α → Visit β) :
    Records (m >>= f) ↔ Records m ∨ Records (f m.run.1) := by
  rw [visit_bind_eq]
  constructor
  · rintro ⟨text, h⟩
    rcases List.mem_append.mp h with h | h
    · exact .inl ⟨text, h⟩
    · exact .inr ⟨text, h⟩
  · rintro (⟨text, h⟩ | ⟨text, h⟩)
    · exact ⟨text, List.mem_append_left _ h⟩
    · exact ⟨text, List.mem_append_right _ h⟩

@[simp] theorem records_note_error (text : String) : Records (note (.error text)) :=
  ⟨text, List.mem_singleton.mpr rfl⟩

theorem records_note {n : Note} : Records (note n) ↔ ∃ text, n = .error text := by
  constructor
  · rintro ⟨text, h⟩
    exact ⟨text, (List.mem_singleton.mp h).symm⟩
  · rintro ⟨text, rfl⟩
    exact records_note_error text

@[simp] theorem run_pure (a : α) : (pure a : Visit α).run.1 = a := rfl

@[simp] theorem run_bind (m : Visit α) (f : α → Visit β) :
    (m >>= f).run.1 = (f m.run.1).run.1 := rfl

@[simp] theorem notes_pure (a : α) : (pure a : Visit α).run.2 = [] := rfl

@[simp] theorem notes_bind (m : Visit α) (f : α → Visit β) :
    (m >>= f).run.2 = m.run.2 ++ (f m.run.1).run.2 := rfl

@[simp] theorem records_errorCondition (text : String) :
    Records (errorCondition text : Visit (Cond C F)) := by
  simp [errorCondition]

end Records

/-! ## Terms that record an error -/

section Terms

variable (opts : VisitorOpts C F)

/-- The values of an `IN`, as visited. -/
def InClause.read (clause : InClause) : List (Scalar F) :=
  (visitInClause opts clause).run.1

/-- A value, as visited. -/
def Value.read (value : Value) : Scalar F := (visitValue opts value).run.1

/-- The field keys that a text may stand for. -/
def foundKeys (text : String) : List FieldKey :=
  let fieldKey := getFieldKeyFromKeyText text
  let typeMatches := fun item : FieldKey =>
    fieldKey.fieldDataType = .unspecified || fieldKey.fieldDataType = item.fieldDataType
  let named := (opts.fieldKeys fieldKey.name).filter fun item =>
    (fieldKey.fieldContext = .unspecified || fieldKey.fieldContext = item.fieldContext) &&
      typeMatches item
  let prefixed :=
    if fieldKey.fieldContext = .unspecified then []
    else
      (opts.fieldKeys (fieldKey.fieldContext.stringValue ++ "." ++ fieldKey.name)).filter
        typeMatches
  let body :=
    if !opts.bodyJSONQueryEnabled && fieldKey.fieldContext = .body then [fieldKey] else []
  named ++ prefixed ++ body

/-- No field key goes with the text, and that is not ignored. -/
def KeyUnresolved (text : String) : Prop :=
  foundKeys opts text = [] ∧
    (((getFieldKeyFromKeyText text).fieldContext = .body ∧
        (getFieldKeyFromKeyText text).name = "") ∨ opts.ignoreNotFoundKeys = false)

/-- A number that does not parse. -/
def Value.Unparsable : Value → Prop
  | .number text => opts.parseFloat text = none
  | _ => False

/-- A string that names a variable with an empty list. -/
def NamesEmptyList (value : Scalar F) : Prop :=
  ∃ var type, value = .str var ∧ lookupVariable opts var = some ⟨type, .list []⟩

/-- Two numbers or two strings. -/
def SameKind : Scalar F → Scalar F → Prop
  | .num _, .num _ => True
  | .str _, .str _ => True
  | _, _ => False

/-- The values after `IN`. -/
def InClause.allValue : InClause → List Value
  | .list values => values.allValue
  | .single value => [value]

/-- The operator that conditions are built for. -/
def Operation.operator : Operation → FilterOperator
  | .exists negated => if negated then .notExists else .exists
  | .inClause _ => .in
  | .notInClause _ => .notIn
  | .between negated _ _ => if negated then .notBetween else .between
  | .equals _ => .equal
  | .notEquals _ => .notEqual
  | .lt _ => .lessThan
  | .le _ => .lessThanOrEq
  | .gt _ => .greaterThan
  | .ge _ => .greaterThanOrEq
  | .like negated _ => if negated then .notLike else .like
  | .ilike negated _ => if negated then .notILike else .iLike
  | .regexp negated _ => if negated then .notRegexp else .regexp
  | .contains negated _ => if negated then .notContains else .contains

/-- The value that conditions are built for, `none` if the visitor gives up before. -/
def Operation.operand : Operation → Option (Operand F)
  | .exists _ => some .none
  | .inClause clause | .notInClause clause =>
    match (resolveValues opts (clause.read opts)).run.1 with
    | .ok values => some (.list values)
    | .error _ => none
  | .between _ low high =>
    match low.read opts, high.read opts with
    | .num x, .num y => some (.list [.num x, .num y])
    | .str x, .str y => some (.list [.str x, .str y])
    | _, _ => none
  | .equals value | .notEquals value | .lt value | .le value | .gt value | .ge value
  | .like _ value | .ilike _ value | .regexp _ value | .contains _ value =>
    ((resolveValue opts (value.read opts)).run.1).map .scalar

/-- An operation that records the error of a condition that cannot be built. -/
def Operation.reports : Operation → Bool
  | .inClause _ | .notInClause _ | .between _ _ _ => false
  | _ => true

/-- A value of the operation is refused. -/
def Operation.RejectsValues : Operation → Prop
  | .exists _ => False
  | .inClause clause | .notInClause clause =>
    (∃ value ∈ clause.allValue, value.Unparsable opts) ∨
      ∃ x, clause.read opts = [x] ∧ NamesEmptyList opts x
  | .between _ low high =>
    low.Unparsable opts ∨ high.Unparsable opts ∨ ¬ SameKind (low.read opts) (high.read opts)
  | .equals value | .notEquals value | .lt value | .le value | .gt value | .ge value
  | .like _ value | .ilike _ value | .regexp _ value | .contains _ value =>
    value.Unparsable opts ∨ NamesEmptyList opts (value.read opts)

/-- `ConditionFor` returns an error on one of the keys. -/
def FailsOn (op : FilterOperator) (value : Operand F) (keys : List FieldKey) : Prop :=
  ∃ key ∈ keys, ∃ err, opts.conditionFor key op value = .error err

/-- `ConditionFor` returns an error for the operation. -/
def Operation.ConditionFails (operation : Operation) (keys : List FieldKey) : Prop :=
  ∃ value ∈ operation.operand opts, FailsOn opts operation.operator value keys

/-- The keys that conditions are built for. -/
def Comparison.keys (comparison : Comparison) : List FieldKey :=
  keptKeys opts (visitKey opts comparison.key).run.1

/-- `ConditionFor` returns an error for the comparison. -/
def Comparison.ConditionFails (comparison : Comparison) : Prop :=
  comparison.operation.ConditionFails opts (comparison.keys opts)

/-- The comparison records an error. -/
def Comparison.RecordsError (comparison : Comparison) : Prop :=
  KeyUnresolved opts comparison.key ∨
    comparison.keys opts ≠ [] ∧ (comparison.operation.RejectsValues opts ∨
      comparison.operation.reports = true ∧ comparison.ConditionFails opts)

/-- The search for a text records an error. -/
def TextRecordsError (text : String) : Prop :=
  opts.skipFullTextFilter = false ∧
    match opts.fullTextColumn with
    | none => True
    | some column =>
      FailsOn opts .regexp (.scalar (.str (opts.formatFullTextSearch text))) [column]

def FunctionParam.RecordsError : FunctionParam → Prop
  | .key text => KeyUnresolved opts text
  | .value token => token.Unparsable opts
  | .array values => ∃ value ∈ values.allValue, value.Unparsable opts

/-- A parameter, as visited. -/
def FunctionParam.read (param : FunctionParam) : Param F := (visitFunctionParam opts param).run.1

/-- The keys of a function that is not `hasToken` are arrays, where bodies are JSON. -/
def FunctionName.keys (name : FunctionName) (keys : List FieldKey) : List FieldKey :=
  if opts.bodyJSONQueryEnabled && name ≠ .hasToken then
    keys.filter fun key => key.fieldDataType.isArray
  else keys

/-- A key that the function has no condition on. -/
def FunctionName.RejectsKey (name : FunctionName) (value : Param F) (key : FieldKey) : Prop :=
  if name = .hasToken then key.name ≠ "body" ∨ ∀ text, value ≠ .scalar (.str text)
  else key.fieldContext ≠ .body ∨
    opts.bodyJSONQueryEnabled = true ∧ ∃ err, opts.fieldFor key = .error err

/-- The parameters are no key and values that the function has a condition on. -/
def FunctionName.RejectsParams (name : FunctionName) : List (Param F) → Prop
  | .keys keys :: value :: _ =>
    (opts.bodyJSONQueryEnabled = true ∧ name ≠ .hasToken ∧ name.keys opts keys = []) ∨
      ∃ key ∈ name.keys opts keys, name.RejectsKey opts value key
  | _ => True

def FunctionCall.RecordsError (call : FunctionCall) : Prop :=
  opts.skipFunctionCalls = false ∧
    ((∃ param ∈ call.first :: call.rest, param.RecordsError opts) ∨
      call.name.RejectsParams opts ((call.first :: call.rest).map fun param => param.read opts))

/-- The term records an error. -/
def Primary.RecordsError : Primary → Prop
  | .group _ => False
  | .comparison c => c.RecordsError opts
  | .functionCall call => call.RecordsError opts
  | .fullText (.quotedText text) => TextRecordsError opts (trimQuotes text)
  | .fullText (.freeText text) => TextRecordsError opts text
  | .key text => TextRecordsError opts text
  | .value token => TextRecordsError opts (searchText token)

mutual

/-- The terms that the visitor reaches. A branch of an `OR` that is skipped ends it. -/
def OrExpression.reached : OrExpression → List Primary
  | .last expr => expr.reached
  | .or expr rest =>
    if (visitAndExpression opts expr).run.1.isSkippable then expr.reached
    else expr.reached ++ rest.reached

def AndExpression.reached : AndExpression → List Primary
  | .last expr => expr.reached
  | .and expr rest => expr.reached ++ rest.reached

def UnaryExpression.reached : UnaryExpression → List Primary
  | .plain primary => primary.reached
  | .not primary => primary.reached

def Primary.reached : Primary → List Primary
  | .group expr => expr.reached
  | term => [term]

end

end Terms

/-! ## What each visit records -/

section Visits

variable (opts : VisitorOpts C F)

/-- `VisitKey` after the field keys are found. -/
theorem visitKey_eq (text : String) :
    visitKey opts text =
      match foundKeys opts text with
      | [] => do
        if (getFieldKeyFromKeyText text).fieldContext = .body &&
            (getFieldKeyFromKeyText text).name = "" then
          note (.error ("missing key for body json search - expected key of the form " ++
            "`body.key` (ex: `body.status`)"))
        else if !opts.ignoreNotFoundKeys then
          note (.error ("key `" ++ (getFieldKeyFromKeyText text).name ++ "` not found"))
          note (.mainErrorURL
            "https://signoz.io/docs/userguide/search-troubleshooting/#key-fieldname-not-found")
        return []
      | [key] => return [key]
      | found => do
        let resourceOnly :=
          (found.any fun item => item.fieldContext = .resource) &&
            found.any fun item => item.fieldContext = .attribute
        note (.ambiguousKey (getFieldKeyFromKeyText text) found resourceOnly)
        return if resourceOnly then found.filter fun item => item.fieldContext = .resource
          else found := rfl

@[simp] theorem records_visitKey (text : String) :
    Records (visitKey opts text) ↔ KeyUnresolved opts text := by
  rw [visitKey_eq, KeyUnresolved]
  generalize foundKeys opts text = found
  generalize getFieldKeyFromKeyText text = fieldKey
  rcases found with _ | ⟨key, _ | ⟨key', keys⟩⟩
  · by_cases hbody : fieldKey.fieldContext = .body ∧ fieldKey.name = ""
    · simp [hbody]
    · have hbool : (decide (fieldKey.fieldContext = .body) && decide (fieldKey.name = "")) =
          false := by
        simpa using hbody
      cases opts.ignoreNotFoundKeys <;> simp [hbool, hbody]
  · simp
  · simp [records_note]

@[simp] theorem records_visitValue (value : Value) :
    Records (visitValue opts value) ↔ value.Unparsable opts := by
  cases value with
  | number text => cases h : opts.parseFloat text <;> simp [visitValue, Value.Unparsable, h]
  | _ => simp [visitValue, Value.Unparsable]

@[simp] theorem records_visitValues (values : List Value) :
    Records (visitValues opts values) ↔ ∃ value ∈ values, value.Unparsable opts := by
  induction values with
  | nil => simp [visitValues]
  | cons value values ih => simp [visitValues, ih]

@[simp] theorem records_visitInClause (clause : InClause) :
    Records (visitInClause opts clause) ↔
      ∃ value ∈ clause.allValue, value.Unparsable opts := by
  cases clause <;> simp [visitInClause, InClause.allValue]

@[simp] theorem records_resolveValue (value : Scalar F) :
    Records (resolveValue opts value) ↔ NamesEmptyList opts value := by
  cases value with
  | num x => simp [resolveValue, NamesEmptyList]
  | bool b => simp [resolveValue, NamesEmptyList]
  | str var =>
    cases hlookup : lookupVariable opts var with
    | none => simp [resolveValue, NamesEmptyList, hlookup]
    | some item =>
      obtain ⟨type, value⟩ := item
      rcases value with _ | x | (_ | ⟨x, xs⟩)
      · simp [resolveValue, NamesEmptyList, hlookup]
      · simp [resolveValue, NamesEmptyList, hlookup]
      · simp [resolveValue, NamesEmptyList, hlookup, emptyListError]
      · simp [resolveValue, NamesEmptyList, hlookup]

@[simp] theorem records_resolveValues (values : List (Scalar F)) :
    Records (resolveValues opts values) ↔ ∃ x, values = [x] ∧ NamesEmptyList opts x := by
  rcases values with _ | ⟨value, _ | ⟨value', rest⟩⟩
  · simp [resolveValues]
  · cases value with
    | num x => simp [resolveValues, NamesEmptyList]
    | bool b => simp [resolveValues, NamesEmptyList]
    | str var =>
      cases hlookup : lookupVariable opts var with
      | none => simp [resolveValues, NamesEmptyList, hlookup]
      | some item =>
        obtain ⟨type, value⟩ := item
        rcases value with _ | x | (_ | ⟨x, xs⟩)
        · simp [resolveValues, NamesEmptyList, hlookup]
        · -- the value for all is skipped, any other one is taken
          have hnone : ¬ Records (resolveValues opts [.str var]) := by
            simp only [resolveValues, hlookup]
            split <;> simp_all
          simp [hnone, NamesEmptyList, hlookup]
        · simp [resolveValues, NamesEmptyList, hlookup, emptyListError]
        · simp [resolveValues, NamesEmptyList, hlookup]
  · simp [resolveValues]

theorem run_visitInClause (clause : InClause) :
    (visitInClause opts clause).run.1 = clause.read opts := rfl

theorem run_visitValue (value : Value) : (visitValue opts value).run.1 = value.read opts := rfl

@[simp] theorem records_conditionsFor (reports : Bool) (op : FilterOperator) (value : Operand F)
    (keys : List FieldKey) :
    Records (conditionsFor opts reports op value keys) ↔
      reports = true ∧ FailsOn opts op value keys := by
  induction keys with
  | nil => simp [conditionsFor, FailsOn]
  | cons key keys ih =>
    cases hcondition : opts.conditionFor key op value with
    | error err =>
      -- the loop ends here
      have hfails : FailsOn opts op value (key :: keys) :=
        ⟨key, List.mem_cons_self, err, hcondition⟩
      cases reports <;> simp [conditionsFor, hcondition, hfails]
    | ok condition =>
      have hrest : FailsOn opts op value (key :: keys) ↔ FailsOn opts op value keys := by
        simp [FailsOn, hcondition]
      simp [conditionsFor, hcondition, ih, hrest]

@[simp] theorem records_keysCondition (reports : Bool) (op : FilterOperator) (value : Operand F)
    (keys : List FieldKey) :
    Records (keysCondition opts reports op value keys) ↔
      reports = true ∧ FailsOn opts op value keys := by
  unfold keysCondition
  rw [records_bind, records_conditionsFor]
  refine or_iff_left ?_
  split <;> simp

/-- The operators that compare with one value. -/
theorem records_visitOperator (op : FilterOperator) (like : Option String) (value : Value)
    (keys : List FieldKey) :
    Records (visitOperator opts op like value keys) ↔
      (value.Unparsable opts ∨ NamesEmptyList opts (value.read opts)) ∨
        ∃ operand ∈ ((resolveValue opts (value.read opts)).run.1).map Operand.scalar,
          FailsOn opts op operand keys := by
  unfold visitOperator
  rw [records_bind, records_visitValue, run_visitValue, records_bind, records_resolveValue,
    or_assoc]
  cases (resolveValue opts (value.read opts)).run.1 with
  | none => simp
  | some resolved =>
    cases like with
    | none => simp
    | some name => cases hlike : hasLikeWildcards resolved <;> simp [hlike, records_note]

theorem records_visitIn (op : FilterOperator) (clause : InClause) (keys : List FieldKey) :
    Records (visitIn opts op clause keys) ↔
      (∃ value ∈ clause.allValue, value.Unparsable opts) ∨
        ∃ x, clause.read opts = [x] ∧ NamesEmptyList opts x := by
  unfold visitIn
  rw [records_bind, records_visitInClause, run_visitInClause, records_bind, records_resolveValues]
  cases (resolveValues opts (clause.read opts)).run.1 with
  | error condition => simp
  | ok values => simp

theorem records_visitBetween (op : FilterOperator) (low high : Value) (key : FieldKey)
    (keys : List FieldKey) :
    Records (visitBetween opts op low high key keys) ↔
      low.Unparsable opts ∨ high.Unparsable opts ∨ ¬ SameKind (low.read opts) (high.read opts) := by
  unfold visitBetween
  rw [records_bind, records_visitValue, run_visitValue, records_bind, records_visitValue,
    run_visitValue]
  cases low.read opts <;> cases high.read opts <;> simp [SameKind]

/-- An operation records that a value is refused, or that a condition cannot be built if it is not
an `IN` or a `BETWEEN`. -/
theorem records_visitOperation (key : FieldKey) (keys : List FieldKey) (operation : Operation) :
    Records (visitOperation opts key keys operation) ↔
      operation.RejectsValues opts ∨
        operation.reports = true ∧ operation.ConditionFails opts keys := by
  cases operation with
  | «exists» negated =>
    simp [visitOperation, Operation.RejectsValues, Operation.reports, Operation.ConditionFails,
      Operation.operand, Operation.operator]
  | inClause clause =>
    simp [visitOperation, records_visitIn, Operation.RejectsValues, Operation.reports]
  | notInClause clause =>
    simp [visitOperation, records_visitIn, Operation.RejectsValues, Operation.reports]
  | between negated low high =>
    simp [visitOperation, records_visitBetween, Operation.RejectsValues, Operation.reports]
  | _ =>
    simp only [visitOperation, records_visitOperator, Operation.RejectsValues, Operation.reports,
      Operation.ConditionFails, Operation.operand, Operation.operator, true_and]

@[simp] theorem records_visitComparison (comparison : Comparison) :
    Records (visitComparison opts comparison) ↔ comparison.RecordsError opts := by
  unfold visitComparison Comparison.RecordsError Comparison.ConditionFails Comparison.keys
  rw [records_bind, records_visitKey]
  refine or_congr_right ?_
  cases (visitKey opts comparison.key).run.1 with
  | nil =>
    have hnone : keptKeys opts [] = [] := by simp [keptKeys]
    simp [hnone]
  | cons first rest =>
    cases hkept : keptKeys opts (first :: rest) with
    | nil => simp [hkept]
    | cons key keys => simp [hkept, records_visitOperation]

@[simp] theorem records_fullTextCondition (text : String) :
    Records (fullTextCondition opts text) ↔ TextRecordsError opts text := by
  unfold fullTextCondition TextRecordsError
  cases opts.skipFullTextFilter with
  | true => simp
  | false =>
    cases opts.fullTextColumn with
    | none => simp
    | some column =>
      cases hcondition : opts.conditionFor column .regexp
          (.scalar (.str (opts.formatFullTextSearch text))) with
      | error err => simp [FailsOn, hcondition]
      | ok condition => simp [FailsOn, hcondition]

/-! ### Functions -/

@[simp] theorem records_visitFunctionParam (param : FunctionParam) :
    Records (visitFunctionParam opts param) ↔ param.RecordsError opts := by
  cases param <;> simp [visitFunctionParam, FunctionParam.RecordsError]

@[simp] theorem records_visitFunctionParams (params : List FunctionParam) :
    Records (visitFunctionParams opts params) ↔ ∃ param ∈ params, param.RecordsError opts := by
  induction params with
  | nil => simp [visitFunctionParams]
  | cons param params ih => simp [visitFunctionParams, ih]

theorem run_visitFunctionParams (params : List FunctionParam) :
    (visitFunctionParams opts params).run.1 = params.map fun param => param.read opts := by
  induction params with
  | nil => rfl
  | cons param params ih =>
    simp only [visitFunctionParams, run_bind, run_pure, ih, List.map_cons]
    rfl

/-- The loop over the keys of a function records what the keys record, if no key without a
condition goes unrecorded. -/
theorem records_functionConditions {condition : FieldKey → Visit (Option (Cond C F))}
    (hnone : ∀ key, (condition key).run.1 = none → Records (condition key))
    (keys : List FieldKey) :
    Records (functionConditions condition keys) ↔ ∃ key ∈ keys, Records (condition key) := by
  induction keys with
  | nil => simp [functionConditions]
  | cons key keys ih =>
    rw [functionConditions, records_bind, List.exists_mem_cons_iff]
    cases hfirst : (condition key).run.1 with
    | none => simp [hnone key hfirst]
    | some first => simp [ih]

/-- `hasToken` on a key. -/
theorem records_hasTokenCondition (value : Param F) (key : FieldKey) :
    Records (hasTokenCondition value key : Visit (Option (Cond C F))) ↔
      FunctionName.RejectsKey opts .hasToken value key := by
  unfold hasTokenCondition FunctionName.RejectsKey
  by_cases hbody : key.name = "body"
  · rcases value with keys | (text | x | b) | values <;> simp [hbody, records_note]
  · simp [hbody, records_note]

theorem hasTokenCondition_none {value : Param F} {key : FieldKey}
    (h : (hasTokenCondition value key : Visit (Option (Cond C F))).run.1 = none) :
    Records (hasTokenCondition value key : Visit (Option (Cond C F))) := by
  by_cases hbody : key.name = "body"
  · rcases value with keys | (text | x | b) | values
    · simp [hasTokenCondition, hbody]
    · simp [hasTokenCondition, hbody] at h
    · simp [hasTokenCondition, hbody]
    · simp [hasTokenCondition, hbody]
    · simp [hasTokenCondition, hbody]
  · simp [hasTokenCondition, hbody]

/-- A function on arrays on a key. -/
theorem records_hasCondition {name : FunctionName} (hname : name ≠ .hasToken) (value : Param F)
    (values : List (Param F)) (key : FieldKey) :
    Records (hasCondition opts name value values key) ↔ name.RejectsKey opts value key := by
  unfold hasCondition FunctionName.RejectsKey
  by_cases hbody : key.fieldContext = .body
  · cases hjson : opts.bodyJSONQueryEnabled with
    | true => cases hfield : opts.fieldFor key <;> simp [hname, hbody]
    | false => simp [hname, hbody]
  · simp [hname, hbody, records_note]

theorem hasCondition_none {name : FunctionName} {value : Param F} {values : List (Param F)}
    {key : FieldKey} (h : (hasCondition opts name value values key).run.1 = none) :
    Records (hasCondition opts name value values key) := by
  unfold hasCondition at h ⊢
  by_cases hbody : key.fieldContext = .body
  · cases hjson : opts.bodyJSONQueryEnabled with
    | true =>
      cases hfield : opts.fieldFor key with
      | error err => simp [hbody]
      | ok field => simp [hbody, hjson, hfield] at h
    | false => simp [hbody, hjson] at h
  · simp [hbody]

/-- The condition of a function on a key, with what it records. -/
theorem records_functionCondition (name : FunctionName) (value : Param F)
    (values : List (Param F)) (keys : List FieldKey) :
    Records (functionConditions (if name = .hasToken then hasTokenCondition value
      else hasCondition opts name value values) keys) ↔
      ∃ key ∈ keys, name.RejectsKey opts value key := by
  by_cases hname : name = .hasToken
  · subst hname
    rw [if_pos rfl, records_functionConditions fun key => hasTokenCondition_none]
    simp only [records_hasTokenCondition opts]
  · rw [if_neg hname, records_functionConditions fun key => hasCondition_none opts]
    simp only [records_hasCondition opts hname]

@[simp] theorem records_visitFunctionCall (call : FunctionCall) :
    Records (visitFunctionCall opts call) ↔ call.RecordsError opts := by
  unfold visitFunctionCall FunctionCall.RecordsError
  cases opts.skipFunctionCalls with
  | true => simp
  | false =>
    simp only [Bool.false_eq_true, if_false, true_and]
    rw [records_bind, records_visitFunctionParams, run_visitFunctionParams]
    refine or_congr_right ?_
    generalize (call.first :: call.rest).map (fun param => param.read opts) = params
    rcases params with _ | ⟨first, _ | ⟨value, values⟩⟩
    · simp [FunctionName.RejectsParams]
    · cases first <;> simp [FunctionName.RejectsParams]
    · cases first with
      | scalar x => simp [FunctionName.RejectsParams]
      | list xs => simp [FunctionName.RejectsParams]
      | keys keys =>
        -- the keys of the loop are `FunctionName.keys`
        change Records (if ((opts.bodyJSONQueryEnabled && decide (call.name ≠ .hasToken)) &&
          decide (call.name.keys opts keys = [])) = true then _ else _) ↔ _
        split
        · rename_i hempty
          simp only [ne_eq, Bool.and_eq_true, decide_eq_true_eq, decide_not,
            Bool.not_eq_eq_eq_not, Bool.not_true, decide_eq_false_iff_not] at hempty
          simp [FunctionName.RejectsParams, hempty]
        · rename_i hempty
          simp only [ne_eq, Bool.and_eq_true, decide_eq_true_eq, decide_not,
            Bool.not_eq_eq_eq_not, Bool.not_true, decide_eq_false_iff_not, and_assoc] at hempty
          rw [records_bind]
          simp only [FunctionName.RejectsParams, ne_eq, hempty, false_or]
          rw [← records_functionCondition opts call.name value (value :: values)]
          refine or_iff_left ?_
          split <;> simp

/-- A term that is no group records what is said of it. -/
theorem records_visitPrimary {term : Primary} (h : ∀ expr, term ≠ .group expr) :
    Records (visitPrimary opts term) ↔ term.RecordsError opts := by
  cases term with
  | group expr => exact absurd rfl (h expr)
  | comparison c => rw [visitPrimary, records_visitComparison, Primary.RecordsError]
  | functionCall call => rw [visitPrimary, records_visitFunctionCall, Primary.RecordsError]
  | fullText text =>
    cases text <;>
      rw [visitPrimary, visitFullText, records_fullTextCondition, Primary.RecordsError]
  | key text => rw [visitPrimary, records_fullTextCondition, Primary.RecordsError]
  | value token => rw [visitPrimary, records_fullTextCondition, Primary.RecordsError]

end Visits

/-! ## The run of the visitor -/

section Run

variable (opts : VisitorOpts C F)

mutual

/-- The notes of the visitor are those of the terms it reaches, in their order. -/
theorem notes_orBranches : ∀ expr : OrExpression,
    (orBranches opts expr).run.2 =
      (expr.reached opts).flatMap fun term => (visitPrimary opts term).run.2
  | .last expr => by
    rw [orBranches, OrExpression.reached, notes_bind, notes_andParts expr]
    dsimp only
    split <;> rw [notes_pure, List.append_nil]
  | .or expr rest => by
    have hcond : (visitAndExpression opts expr).run.1 = andCondition (andParts opts expr).run.1 :=
      rfl
    rw [orBranches, OrExpression.reached, notes_bind, notes_andParts expr, hcond]
    dsimp only
    split
    · rw [notes_pure, List.append_nil]
    · rw [notes_bind, notes_pure, List.append_nil, notes_orBranches rest, List.flatMap_append]

theorem notes_andParts : ∀ expr : AndExpression,
    (andParts opts expr).run.2 =
      (expr.reached opts).flatMap fun term => (visitPrimary opts term).run.2
  | .last expr => by
    rw [andParts, AndExpression.reached, notes_bind, notes_visitUnaryExpression expr,
      notes_pure, List.append_nil]
  | .and expr rest => by
    rw [andParts, AndExpression.reached, notes_bind, notes_visitUnaryExpression expr,
      notes_bind, notes_pure, List.append_nil, notes_andParts rest, List.flatMap_append]

theorem notes_visitUnaryExpression : ∀ expr : UnaryExpression,
    (visitUnaryExpression opts expr).run.2 =
      (expr.reached opts).flatMap fun term => (visitPrimary opts term).run.2
  | .plain primary => by
    rw [visitUnaryExpression, UnaryExpression.reached, notes_visitPrimary primary]
  | .not primary => by
    rw [visitUnaryExpression, UnaryExpression.reached, notes_bind, notes_visitPrimary primary,
      notes_pure, List.append_nil]

theorem notes_visitPrimary : ∀ primary : Primary,
    (visitPrimary opts primary).run.2 =
      (primary.reached opts).flatMap fun term => (visitPrimary opts term).run.2
  | .group expr => by
    rw [visitPrimary, Primary.reached, ← notes_orBranches expr, notes_bind, notes_pure,
      List.append_nil]
  | .comparison _ => by simp [Primary.reached]
  | .functionCall _ => by simp [Primary.reached]
  | .fullText _ => by simp [Primary.reached]
  | .key _ => by simp [Primary.reached]
  | .value _ => by simp [Primary.reached]

end

mutual

/-- A term that is reached is no group. -/
theorem OrExpression.ne_group_of_reached {term : Primary} : ∀ {expr : OrExpression},
    term ∈ expr.reached opts → ∀ e, term ≠ .group e
  | .last _, h => AndExpression.ne_group_of_reached h
  | .or _ _, h => by
    rw [OrExpression.reached] at h
    split at h
    · exact AndExpression.ne_group_of_reached h
    · rcases List.mem_append.mp h with h | h
      · exact AndExpression.ne_group_of_reached h
      · exact OrExpression.ne_group_of_reached h

theorem AndExpression.ne_group_of_reached {term : Primary} : ∀ {expr : AndExpression},
    term ∈ expr.reached opts → ∀ e, term ≠ .group e
  | .last _, h => UnaryExpression.ne_group_of_reached h
  | .and _ _, h => by
    rcases List.mem_append.mp h with h | h
    · exact UnaryExpression.ne_group_of_reached h
    · exact AndExpression.ne_group_of_reached h

theorem UnaryExpression.ne_group_of_reached {term : Primary} : ∀ {expr : UnaryExpression},
    term ∈ expr.reached opts → ∀ e, term ≠ .group e
  | .plain _, h => Primary.ne_group_of_reached h
  | .not _, h => Primary.ne_group_of_reached h

theorem Primary.ne_group_of_reached {term : Primary} : ∀ {primary : Primary},
    term ∈ primary.reached opts → ∀ e, term ≠ .group e
  | .group _, h => OrExpression.ne_group_of_reached h
  | .comparison _, h => by simp [List.mem_singleton.mp h]
  | .functionCall _, h => by simp [List.mem_singleton.mp h]
  | .fullText _, h => by simp [List.mem_singleton.mp h]
  | .key _, h => by simp [List.mem_singleton.mp h]
  | .value _, h => by simp [List.mem_singleton.mp h]

end

/-- The visitor records an error exactly if a term it reaches does. -/
theorem records_visitOrExpression (expr : OrExpression) :
    Records (visitOrExpression opts expr) ↔
      ∃ term ∈ expr.reached opts, term.RecordsError opts := by
  have hnotes : (visitOrExpression opts expr).run.2 =
      (expr.reached opts).flatMap fun term => (visitPrimary opts term).run.2 :=
    notes_orBranches opts expr
  have hterm : ∀ term ∈ expr.reached opts,
      (Records (visitPrimary opts term) ↔ term.RecordsError opts) := fun term hmem =>
    records_visitPrimary opts (OrExpression.ne_group_of_reached opts hmem)
  rw [Records, hnotes]
  constructor
  · rintro ⟨text, h⟩
    obtain ⟨term, hmem, htext⟩ := List.mem_flatMap.mp h
    exact ⟨term, hmem, (hterm term hmem).mp ⟨text, htext⟩⟩
  · rintro ⟨term, hmem, hrecords⟩
    obtain ⟨text, htext⟩ := (hterm term hmem).mpr hrecords
    exact ⟨text, List.mem_flatMap.mpr ⟨term, hmem, htext⟩⟩

end Run

/-! ## The clause -/

/-- The errors that are written down are those noted. -/
theorem errors_foldl_add (notes : List Note) (noted : Noted) :
    (notes.foldl Noted.add noted).errors = noted.errors ++ notes.filterMap fun
      | .error text => some text
      | _ => none := by
  induction notes generalizing noted with
  | nil => simp
  | cons n notes ih =>
    rw [List.foldl_cons, ih]
    cases n with
    | error text => simp [Noted.add]
    | ambiguousKey key found resourceOnly =>
      by_cases hwarned : key.name ∈ noted.keysWithWarnings <;> simp [Noted.add, hwarned]
    | _ => simp [Noted.add]

theorem errors_finish_ne_nil_iff {α : Type} (m : Visit α) :
    (finish m.run.2).errors ≠ [] ↔ Records m := by
  rw [finish, errors_foldl_add, List.nil_append, Records, Ne, List.filterMap_eq_nil_iff]
  constructor
  · intro h
    by_contra hnone
    refine h fun n hn => ?_
    cases n with
    | error text => exact absurd ⟨text, hn⟩ hnone
    | _ => rfl
  · rintro ⟨text, htext⟩ h
    exact absurd (h _ htext) (by simp)

section Clause

variable (opts : VisitorOpts C F)

/-- The options the visitor has for a filter: resource keys are kept where there is an `OR`. -/
def VisitorOpts.forFilter (tree : OrExpression) : VisitorOpts C F :=
  if tree.hasOr then { opts with skipResourceFilter := false } else opts

/-- A filter fails exactly if a term that the visitor reaches records an error. -/
theorem prepareWhereClause_error_iff (tree : OrExpression) :
    (∃ errors, prepareWhereClause opts tree = .error errors) ↔
      ∃ term ∈ tree.reached (opts.forFilter tree), term.RecordsError (opts.forFilter tree) := by
  rw [← records_visitOrExpression, ← errors_finish_ne_nil_iff]
  unfold prepareWhereClause
  change (∃ errors, (if (finish (visitOrExpression (opts.forFilter tree) tree).run.2).errors ≠ []
    then _ else _) = Except.error errors) ↔ _
  split
  · rename_i herrors
    exact iff_of_true ⟨_, rfl⟩ herrors
  · rename_i herrors
    exact iff_of_false (by rintro ⟨errors, h⟩; cases h) herrors

/-- A comparison that the visitor reaches and whose condition cannot be built fails the filter,
exactly if each such comparison is no `IN` and no `BETWEEN`, or a term that is reached records an
error anyway. -/
theorem conditionErrors_surface_iff (tree : OrExpression) :
    (∀ comparison, .comparison comparison ∈ tree.reached (opts.forFilter tree) →
        comparison.ConditionFails (opts.forFilter tree) →
          ∃ errors, prepareWhereClause opts tree = .error errors) ↔
      (∀ comparison, .comparison comparison ∈ tree.reached (opts.forFilter tree) →
        comparison.ConditionFails (opts.forFilter tree) →
          comparison.operation.reports = true) ∨
        ∃ term ∈ tree.reached (opts.forFilter tree),
          term.RecordsError (opts.forFilter tree) := by
  rw [prepareWhereClause_error_iff]
  constructor
  · intro h
    by_contra hnot
    rw [not_or] at hnot
    obtain ⟨hsilent, hnone⟩ := hnot
    exact hsilent fun comparison hmem hfails => absurd (h comparison hmem hfails) hnone
  · rintro (hreports | hrecords) comparison hmem hfails
    · -- the comparison itself records the error
      refine ⟨_, hmem, .inr ⟨?_, .inr ⟨hreports comparison hmem hfails, hfails⟩⟩⟩
      obtain ⟨value, _, key, hkey, _⟩ := hfails
      exact List.ne_nil_of_mem hkey
    · exact hrecords

end Clause

/-! ## A condition that is dropped -/

/-- Options that know one key and build a condition of its value alone. -/
def oneKeyOpts : VisitorOpts (Operand Nat) Nat where
  conditionFor _ _ operand := .ok (.built operand)
  fieldFor _ := .error ""
  fieldKeys name := if name = "env" then [⟨"env", .unspecified, .string, false⟩] else []
  fullTextColumn := none
  jsonKeyToKey _ _ := ""
  skipResourceFilter := false
  skipFullTextFilter := false
  skipFunctionCalls := false
  ignoreNotFoundKeys := false
  vars _ := none
  bodyJSONQueryEnabled := false
  parseFloat := String.toNat?
  formatFullTextSearch := id

/-- Options with a key `x` that no condition can be built on, and a key `y`. -/
def noColumnOpts : VisitorOpts (Operand Nat) Nat :=
  { oneKeyOpts with
    conditionFor := fun key _ operand =>
      if key.name = "x" then .error "column not found" else .ok (.built operand)
    fieldKeys := fun name => [⟨name, .unspecified, .string, false⟩] }

/-- `x IN ('a')`. -/
def failingIn : Comparison := ⟨"x", .inClause (.list ⟨.quotedText "'a'", []⟩)⟩

/-- `x IN ('a') AND y = 'b'`. -/
def failingInAndEquals : OrExpression :=
  .last (.and (.plain (.comparison failingIn))
    (.last (.plain (.comparison ⟨"y", .equals (.quotedText "'b'")⟩))))

/-- The condition on `x` cannot be built, and the clause is the condition on `y`. -/
theorem failingIn_dropped :
    .comparison failingIn ∈ failingInAndEquals.reached (noColumnOpts.forFilter failingInAndEquals) ∧
      failingIn.ConditionFails (noColumnOpts.forFilter failingInAndEquals) ∧
      prepareWhereClause noColumnOpts failingInAndEquals =
        .ok ⟨some (.built (.scalar (.str "b"))), [], ""⟩ ∧
      ¬ ∃ errors, prepareWhereClause noColumnOpts failingInAndEquals = .error errors := by
  have hclause : prepareWhereClause noColumnOpts failingInAndEquals =
      .ok ⟨some (.built (.scalar (.str "b"))), [], ""⟩ := by
    rfl
  refine ⟨List.mem_cons_self, ?_, hclause, ?_⟩
  · refine ⟨.list [.str "a"], ?_, ⟨"x", .unspecified, .string, false⟩, ?_, _, rfl⟩
    · rfl
    · decide
  · rintro ⟨errors, herrors⟩
    rw [hclause] at herrors
    cases herrors

end Signoz.FilterQuery
