import Mathlib.Control.Monad.Writer
import Signoz.FilterQuery.FieldKey
import Signoz.FilterQuery.Syntax

/-!
# The visitor of filter expressions

`where_clause_visitor.go`: how the parse tree of a filter becomes the condition of a `WHERE`
clause. Condition builder, field mapper and variables are options of the visitor, as in the source.
`sbAnd` and `sbOr` stand for the calls of `go-sqlbuilder`, whose code is not part of the repository.

The visitor appends to lists of errors and warnings and never reads what it appended, but for the
keys it has warned about. Here it writes notes, and `finish` reads them.
-/

namespace Signoz.FilterQuery

/-! ## Operators and values -/

/-- `FilterOperator`. -/
inductive FilterOperator where
  | equal
  | notEqual
  | greaterThan
  | greaterThanOrEq
  | lessThan
  | lessThanOrEq
  | like
  | notLike
  | iLike
  | notILike
  | between
  | notBetween
  | in
  | notIn
  | exists
  | notExists
  | regexp
  | notRegexp
  | contains
  | notContains
deriving DecidableEq

/-- `AddDefaultExistsFilter`. -/
def FilterOperator.addDefaultExistsFilter : FilterOperator → Bool
  | .equal | .greaterThan | .greaterThanOrEq | .lessThan | .lessThanOrEq | .like | .iLike
  | .between | .in | .regexp | .contains => true
  | _ => false

/-- `IsNegativeOperator`. -/
def FilterOperator.isNegativeOperator : FilterOperator → Bool
  | .equal | .greaterThan | .greaterThanOrEq | .lessThan | .lessThanOrEq | .like | .iLike
  | .between | .in | .exists | .regexp | .contains => false
  | _ => true

/-- A string, a number or a truth value. -/
inductive Scalar (F : Type) where
  | str (s : String)
  | num (x : F)
  | bool (b : Bool)
deriving DecidableEq

/-- The value of a condition. -/
inductive Operand (F : Type) where
  | none
  | scalar (value : Scalar F)
  | list (values : List (Scalar F))

/-- `VariableType`. -/
inductive VariableType where
  | query
  | dynamic
  | custom
  | text
deriving DecidableEq

/-- The value of a variable: a scalar, a list of them, or none. -/
inductive VariableValue (F : Type) where
  | null
  | scalar (value : Scalar F)
  | list (values : List (Scalar F))
deriving DecidableEq

/-- `VariableItem`. -/
structure VariableItem (F : Type) where
  type : VariableType
  value : VariableValue F
deriving DecidableEq

/-- What a parameter of a function is visited as. -/
inductive Param (F : Type) where
  | keys (keys : List FieldKey)
  | scalar (value : Scalar F)
  | list (values : List (Scalar F))

/-! ## Conditions -/

/-- The text of a condition as a tree: the empty text, the two literals that stand for a condition
that is skipped, conditions of the builder and of functions, and what the visitor makes of them. -/
inductive Cond (C F : Type) where
  | empty
  | skip
  | error
  | built (condition : C)
  | function (name : FunctionName) (field : String) (value : Param F)
  | and (a b : Cond C F)
  | or (a b : Cond C F)
  | not (a : Cond C F)
  | paren (a : Cond C F)

namespace Cond

variable {C F : Type}

/-- One of `SkippableConditionLiterals`. -/
def isSkippable : Cond C F → Bool
  | skip | error => true
  | _ => false

def isEmpty : Cond C F → Bool
  | empty => true
  | _ => false

/-- `And` of `go-sqlbuilder`, a library outside the repository: the conditions that are not empty,
with `AND` between them; of none it is the empty condition. -/
def sbAnd (conds : List (Cond C F)) : Cond C F :=
  match conds.filter fun c => !c.isEmpty with
  | [] => empty
  | c :: cs => cs.foldl and c

/-- `Or` of `go-sqlbuilder`, likewise with `OR`. -/
def sbOr (conds : List (Cond C F)) : Cond C F :=
  match conds.filter fun c => !c.isEmpty with
  | [] => empty
  | c :: cs => cs.foldl or c

end Cond

/-! ## The visitor -/

/-- What the visitor notes. -/
inductive Note where
  | error (text : String)
  | mainErrorURL (url : String)
  /-- A URL for the errors where there is none yet. -/
  | defaultErrorURL (url : String)
  | likeWithoutWildcards (op : String)
  | ambiguousKey (key : FieldKey) (found : List FieldKey) (resourceOnly : Bool)

/-- A visit: a result and notes. -/
abbrev Visit (α : Type) := Writer (List Note) α

/-- `FilterExprVisitorOpts`, with what the visitor calls. -/
structure VisitorOpts (C F : Type) where
  conditionFor : FieldKey → FilterOperator → Operand F → Except String (Cond C F)
  fieldFor : FieldKey → Except String String
  fieldKeys : String → List FieldKey
  fullTextColumn : Option FieldKey
  jsonKeyToKey : FieldKey → List (Param F) → String
  skipResourceFilter : Bool
  skipFullTextFilter : Bool
  skipFunctionCalls : Bool
  ignoreNotFoundKeys : Bool
  vars : String → Option (VariableItem F)
  bodyJSONQueryEnabled : Bool
  /-- `strconv.ParseFloat`. -/
  parseFloat : String → Option F
  formatFullTextSearch : String → String

section Visitor

variable {C F : Type} (opts : VisitorOpts C F)

def note (n : Note) : Visit Unit := tell [n]

/-- An error, and the literal for it. -/
def errorCondition (text : String) : Visit (Cond C F) := do
  note (.error text)
  return .error

/-- `VisitKey`. -/
def visitKey (text : String) : Visit (List FieldKey) :=
  let fieldKey := getFieldKeyFromKeyText text
  let typeMatches := fun item : FieldKey =>
    fieldKey.fieldDataType = .unspecified || fieldKey.fieldDataType = item.fieldDataType
  let named := (opts.fieldKeys fieldKey.name).filter fun item =>
    (fieldKey.fieldContext = .unspecified || fieldKey.fieldContext = item.fieldContext) &&
      typeMatches item
  let prefixed :=
    if fieldKey.fieldContext = .unspecified then []
    else
      (opts.fieldKeys (fieldKey.fieldContext.stringValue ++ "." ++ fieldKey.name)).filter
        typeMatches
  let body :=
    if !opts.bodyJSONQueryEnabled && fieldKey.fieldContext = .body then [fieldKey] else []
  match named ++ prefixed ++ body with
  | [] => do
    if fieldKey.fieldContext = .body && fieldKey.name = "" then
      note (.error ("missing key for body json search - expected key of the form " ++
        "`body.key` (ex: `body.status`)"))
    else if !opts.ignoreNotFoundKeys then
      note (.error ("key `" ++ fieldKey.name ++ "` not found"))
      note (.mainErrorURL
        "https://signoz.io/docs/userguide/search-troubleshooting/#key-fieldname-not-found")
    return []
  | [key] => return [key]
  | found => do
    let resourceOnly :=
      (found.any fun item => item.fieldContext = .resource) &&
        found.any fun item => item.fieldContext = .attribute
    note (.ambiguousKey fieldKey found resourceOnly)
    return if resourceOnly then found.filter fun item => item.fieldContext = .resource else found

/-- The loops of `trimQuotes`: two characters become one. -/
def replacePair (a b c : Char) : List Char → List Char
  | x :: y :: rest =>
    if x = a ∧ y = b then c :: replacePair a b c rest else x :: replacePair a b c (y :: rest)
  | cs => cs

/-- `trimQuotes`. -/
def trimQuotes (txt : String) : String :=
  let cs := txt.toList
  let quoted := fun q : Char => 2 ≤ cs.length && cs.head? = some q && cs.getLast? = some q
  let cs := if quoted '"' || quoted '\'' then cs.tail.dropLast else cs
  String.ofList (replacePair '\\' '\'' '\'' (replacePair '\\' '\\' '\\' cs))

def errorConditionLiteral : String := "__skip_because_of_error__"

/-- `VisitValue`. -/
def visitValue : Value → Visit (Scalar F)
  | .quotedText text => return .str (trimQuotes text)
  | .number text =>
    match opts.parseFloat text with
    | some number => return .num number
    | none => do
      note (.error ("failed to parse number " ++ text))
      return .str errorConditionLiteral
  | .bool text => return .bool (text.toLower = "true")
  | .key text => return .str text

def visitValues : List Value → Visit (List (Scalar F))
  | [] => return []
  | value :: values => do
    let first ← visitValue opts value
    let rest ← visitValues values
    return first :: rest

/-- `var_[1:]`: what is left without the first byte, when that is a text. -/
def dropFirstByte (s : String) : Option String :=
  match s.toList with
  | [] => none
  | c :: cs => if c.val < 128 then some (String.ofList cs) else none

/-- The variable that a string names, with its first byte or without it. -/
def lookupVariable (var : String) : Option (VariableItem F) :=
  (opts.vars var).or ((dropFirstByte var).bind opts.vars)

def emptyListError (var : String) : Note :=
  .error ("malformed request payload: variable `" ++
    (if var.toList.head? = some '$' then String.ofList var.toList.tail else var) ++
    "` used in expression has an empty list value")

/-- The value of a comparison, or the first value of the variable that it names. -/
def resolveValue (value : Scalar F) : Visit (Option (Scalar F)) :=
  match value with
  | .str var =>
    match lookupVariable opts var with
    | none => return some value
    | some item =>
      match item.value with
      | .null => return some value
      | .scalar x => return some x
      | .list [] => do
        note (emptyListError var)
        return none
      | .list (x :: _) => return some x
  | _ => return some value

/-- The values of an `IN`, or those of the variable that a single one names. -/
def resolveValues (values : List (Scalar F)) : Visit (Except (Cond C F) (List (Scalar F))) :=
  match values with
  | [.str var] =>
    match lookupVariable opts var with
    | none => return .ok values
    | some item =>
      match item.type, item.value with
      | .dynamic, .scalar (.str "__all__") => return .error .skip
      | _, .null => return .ok values
      | _, .scalar x => return .ok [x]
      | _, .list [] => do
        note (emptyListError var)
        return .error .error
      | _, .list xs => return .ok xs
  | _ => return .ok values

/-- The conditions on the keys of a comparison; `none` when one cannot be built. -/
def conditionsFor (reports : Bool) (op : FilterOperator) (value : Operand F) :
    List FieldKey → Visit (Option (List (Cond C F)))
  | [] => return some []
  | key :: keys =>
    match opts.conditionFor key op value with
    | .error err => do
      if reports then note (.error ("failed to build condition: " ++ err))
      return none
    | .ok condition => do
      let rest ← conditionsFor reports op value keys
      return rest.map fun conds => if condition.isSkippable then conds else condition :: conds

/-- The condition on the keys of a comparison. -/
def keysCondition (reports : Bool) (op : FilterOperator) (value : Operand F)
    (keys : List FieldKey) : Visit (Cond C F) := do
  match ← conditionsFor opts reports op value keys with
  | none => return .error
  | some [] => return .skip
  | some [condition] => return condition
  | some conds => return if op.isNegativeOperator then .sbAnd conds else .sbOr conds

/-- `hasLikeWildcards`. -/
def hasLikeWildcards : Scalar F → Bool
  | .str s => s.toList.contains '%' || s.toList.contains '_'
  | _ => false

/-- `VisitInClause`, `VisitNotInClause`. -/
def visitInClause : InClause → Visit (List (Scalar F))
  | .list values => visitValues opts values.allValue
  | .single value => visitValues opts [value]

/-- `IN` and `NOT IN`. -/
def visitIn (op : FilterOperator) (clause : InClause) (keys : List FieldKey) :
    Visit (Cond C F) := do
  let values ← visitInClause opts clause
  match ← resolveValues opts values with
  | .error condition => return condition
  | .ok values => keysCondition opts false op (.list values) keys

/-- `BETWEEN` and `NOT BETWEEN`. -/
def visitBetween (op : FilterOperator) (low high : Value) (key : FieldKey)
    (keys : List FieldKey) : Visit (Cond C F) := do
  let value1 ← visitValue opts low
  let value2 ← visitValue opts high
  match value1, value2 with
  | .num _, .num _ | .str _, .str _ =>
    keysCondition opts false op (.list [value1, value2]) keys
  | .num _, _ =>
    errorCondition ("value type mismatch for key " ++ key.name ++
      ": expected number for both operands")
  | .str _, _ =>
    errorCondition ("value type mismatch for key " ++ key.name ++
      ": expected string for both operands")
  | .bool _, _ =>
    errorCondition ("value type mismatch for key " ++ key.name ++
      ": operands must be number or string")

/-- The other operators, with the name of the operator where it warns without wildcards. -/
def visitOperator (op : FilterOperator) (like : Option String) (value : Value)
    (keys : List FieldKey) : Visit (Cond C F) := do
  let visited ← visitValue opts value
  match ← resolveValue opts visited with
  | none => return .error
  | some resolved =>
    match like with
    | some name => if !hasLikeWildcards resolved then note (.likeWithoutWildcards name)
    | none => pure ()
    keysCondition opts true op (.scalar resolved) keys

/-- The operator of a comparison, on keys of which `key` is the first. -/
def visitOperation (key : FieldKey) (keys : List FieldKey) : Operation → Visit (Cond C F)
  | .exists negated =>
    keysCondition opts true (if negated then .notExists else .exists) .none keys
  | .inClause clause => visitIn opts .in clause keys
  | .notInClause clause => visitIn opts .notIn clause keys
  | .between negated low high =>
    visitBetween opts (if negated then .notBetween else .between) low high key keys
  | .equals value => visitOperator opts .equal none value keys
  | .notEquals value => visitOperator opts .notEqual none value keys
  | .lt value => visitOperator opts .lessThan none value keys
  | .le value => visitOperator opts .lessThanOrEq none value keys
  | .gt value => visitOperator opts .greaterThan none value keys
  | .ge value => visitOperator opts .greaterThanOrEq none value keys
  | .like negated value =>
    visitOperator opts (if negated then .notLike else .like) (some "LIKE") value keys
  | .ilike negated value =>
    visitOperator opts (if negated then .notILike else .iLike) (some "ILIKE") value keys
  | .regexp negated value =>
    visitOperator opts (if negated then .notRegexp else .regexp) none value keys
  | .contains negated value =>
    visitOperator opts (if negated then .notContains else .contains) none value keys

/-- The keys that are left to a comparison. -/
def keptKeys (keys : List FieldKey) : List FieldKey :=
  if opts.skipResourceFilter then keys.filter fun key => key.fieldContext ≠ .resource else keys

/-- `VisitComparison`. -/
def visitComparison (comparison : Comparison) : Visit (Cond C F) := do
  match ← visitKey opts comparison.key with
  | [] => return .error
  | found =>
    match keptKeys opts found with
    | [] => return .skip
    | key :: keys => visitOperation opts key (key :: keys) comparison.operation

/-- A search for a text in the column for it. -/
def fullTextCondition (text : String) : Visit (Cond C F) :=
  if opts.skipFullTextFilter then return .skip
  else
    match opts.fullTextColumn with
    | none => errorCondition "full text search is not supported"
    | some column =>
      match opts.conditionFor column .regexp
          (.scalar (.str (opts.formatFullTextSearch text))) with
      | .error err => errorCondition ("failed to build full text search condition: " ++ err)
      | .ok condition => return condition

/-- `VisitFullText`. -/
def visitFullText : FullText → Visit (Cond C F)
  | .quotedText text => fullTextCondition opts (trimQuotes text)
  | .freeText text => fullTextCondition opts text

/-- The text that a value alone searches for. -/
def searchText : Value → String
  | .quotedText text => trimQuotes text
  | .number text | .bool text | .key text => text

/-- `VisitFunctionParam`. -/
def visitFunctionParam : FunctionParam → Visit (Param F)
  | .key text => do return .keys (← visitKey opts text)
  | .value value => do return .scalar (← visitValue opts value)
  | .array values => do return .list (← visitValues opts values.allValue)

/-- `VisitFunctionParamList`. -/
def visitFunctionParams : List FunctionParam → Visit (List (Param F))
  | [] => return []
  | param :: params => do
    let first ← visitFunctionParam opts param
    let rest ← visitFunctionParams params
    return first :: rest

def FunctionName.text : FunctionName → String
  | .hasToken => "hasToken"
  | .has => "has"
  | .hasAny => "hasAny"
  | .hasAll => "hasAll"

/-- The condition of `hasToken` on a key. -/
def hasTokenCondition (value : Param F) (key : FieldKey) : Visit (Option (Cond C F)) := do
  let url := "https://signoz.io/docs/userguide/functions-reference/#hastoken-function"
  if key.name ≠ "body" then
    note (.defaultErrorURL url)
    note (.error "function `hasToken` only supports body field as first parameter")
  match value with
  | .scalar (.str _) => return some (.function .hasToken key.name value)
  | _ => do
    note (.defaultErrorURL url)
    note (.error "function `hasToken` expects value parameter to be a string")
    return none

/-- The condition of a function on arrays on a key. -/
def hasCondition (name : FunctionName) (value : Param F) (values : List (Param F))
    (key : FieldKey) : Visit (Option (Cond C F)) :=
  if key.fieldContext = .body then
    if opts.bodyJSONQueryEnabled then
      match opts.fieldFor key with
      | .error err => do
        note (.error ("failed to get field name for key " ++ key.name ++ ": " ++ err))
        return none
      | .ok field => return some (.function name field value)
    else return some (.function name (opts.jsonKeyToKey key values) value)
  else do
    note (.defaultErrorURL ("https://signoz.io/docs/userguide/search-troubleshooting/" ++
      "#function-supports-only-body-json-search"))
    note (.error ("function `" ++ name.text ++ "` supports only body JSON search"))
    return none

/-- The conditions of a function on its keys; `none` when one cannot be built. -/
def functionConditions (condition : FieldKey → Visit (Option (Cond C F))) :
    List FieldKey → Visit (Option (List (Cond C F)))
  | [] => return some []
  | key :: keys => do
    match ← condition key with
    | none => return none
    | some first => do
      let rest ← functionConditions condition keys
      return rest.map fun conds => first :: conds

/-- `VisitFunctionCall`. -/
def visitFunctionCall (call : FunctionCall) : Visit (Cond C F) :=
  if opts.skipFunctionCalls then return .skip
  else do
    let params ← visitFunctionParams opts (call.first :: call.rest)
    match params with
    | [] | [_] =>
      errorCondition ("function `" ++ call.name.text ++ "` expects key and value parameters")
    | .keys keys :: value :: values =>
      let arrays := opts.bodyJSONQueryEnabled && call.name ≠ .hasToken
      let keys' := if arrays then keys.filter fun key => key.fieldDataType.isArray else keys
      if arrays && keys' = [] then
        errorCondition ("function `" ++ call.name.text ++
          "` expects key parameter to be an array field; no array fields found")
      else
        let condition :=
          if call.name = .hasToken then hasTokenCondition value
          else hasCondition opts call.name value (value :: values)
        match ← functionConditions condition keys' with
        | none => return .error
        | some [cond] => return cond
        | some conds => return .sbOr conds
    | _ =>
      errorCondition ("function `" ++ call.name.text ++
        "` expects key parameter to be a field key")

/-- The end of `VisitOrExpression`. -/
def orCondition : Except (Cond C F) (List (Cond C F)) → Cond C F
  | .error skippable => skippable
  | .ok [] => .skip
  | .ok [cond] => cond
  | .ok conds => .sbOr conds

/-- The end of `VisitAndExpression`. -/
def andCondition : List (Cond C F) → Cond C F
  | [] => .skip
  | [cond] => cond
  | conds => .sbAnd conds

mutual

/-- The loop of `VisitOrExpression`. A branch that is skipped ends it. -/
def orBranches : OrExpression → Visit (Except (Cond C F) (List (Cond C F)))
  | .last expr => do
    let cond := andCondition (← andParts expr)
    if cond.isSkippable then return .error cond
    else return .ok (if cond.isEmpty then [] else [cond])
  | .or expr rest => do
    let cond := andCondition (← andParts expr)
    if cond.isSkippable then return .error cond
    else
      let more ← orBranches rest
      return more.map fun conds => if cond.isEmpty then conds else cond :: conds

/-- The loop of `VisitAndExpression`. Parts that are skipped are left out. -/
def andParts : AndExpression → Visit (List (Cond C F))
  | .last expr => do
    let cond ← visitUnaryExpression expr
    return if cond.isSkippable || cond.isEmpty then [] else [cond]
  | .and expr rest => do
    let cond ← visitUnaryExpression expr
    let more ← andParts rest
    return if cond.isSkippable || cond.isEmpty then more else cond :: more

/-- `VisitUnaryExpression`. -/
def visitUnaryExpression : UnaryExpression → Visit (Cond C F)
  | .plain primary => visitPrimary primary
  | .not primary => do
    let result ← visitPrimary primary
    return if result.isSkippable then result else .not result

/-- `VisitPrimary`. -/
def visitPrimary : Primary → Visit (Cond C F)
  | .group expr => do
    let cond := orCondition (← orBranches expr)
    return if cond.isSkippable then cond else .paren cond
  | .comparison comparison => visitComparison opts comparison
  | .functionCall call => visitFunctionCall opts call
  | .fullText text => visitFullText opts text
  | .key text => fullTextCondition opts text
  | .value value => fullTextCondition opts (searchText value)

end

/-- `VisitOrExpression`. -/
def visitOrExpression (expr : OrExpression) : Visit (Cond C F) := orCondition <$> orBranches opts expr

/-- `VisitAndExpression`. -/
def visitAndExpression (expr : AndExpression) : Visit (Cond C F) := andCondition <$> andParts opts expr

end Visitor

/-! ## The clause -/

/-- What the notes come to. -/
structure Noted where
  errors : List String
  mainErrorURL : String
  warnings : List Note
  mainWarnURL : String
  keysWithWarnings : List String

/-- A note is written down. -/
def Noted.add (n : Noted) : Note → Noted
  | .error text => { n with errors := n.errors ++ [text] }
  | .mainErrorURL url => { n with mainErrorURL := url }
  | .defaultErrorURL url =>
    { n with mainErrorURL := if n.mainErrorURL = "" then url else n.mainErrorURL }
  | .likeWithoutWildcards op =>
    { n with
      warnings := n.warnings ++ [.likeWithoutWildcards op]
      mainWarnURL :=
        if n.mainWarnURL = "" then
          "https://signoz.io/docs/userguide/operators-reference/#string-matching-operators"
        else n.mainWarnURL }
  | .ambiguousKey key found resourceOnly =>
    if key.name ∈ n.keysWithWarnings then n
    else
      { n with
        warnings := n.warnings ++ [.ambiguousKey key found resourceOnly]
        mainWarnURL := "https://signoz.io/docs/userguide/field-context-data-types/"
        keysWithWarnings := key.name :: n.keysWithWarnings }

def finish (notes : List Note) : Noted := notes.foldl Noted.add ⟨[], "", [], "", []⟩

/-- `PreparedWhereClause`; a clause without a condition is the literal `true`. -/
structure PreparedWhereClause (C F : Type) where
  whereClause : Option (Cond C F)
  warnings : List Note
  warningsDocURL : String

/-- The errors of a filter, with the URL for them. -/
structure FilterErrors where
  errors : List String
  url : String

/-- `PrepareWhereClause` on a parse tree. -/
def prepareWhereClause {C F : Type} (opts : VisitorOpts C F) (tree : OrExpression) :
    Except FilterErrors (PreparedWhereClause C F) :=
  let opts := if tree.hasOr then { opts with skipResourceFilter := false } else opts
  let visited := (visitOrExpression opts tree).run
  let noted := finish visited.2
  if noted.errors ≠ [] then
    .error ⟨noted.errors,
      if noted.mainErrorURL = "" then
        "https://signoz.io/docs/userguide/search-troubleshooting/"
      else noted.mainErrorURL⟩
  else
    .ok ⟨match visited.1 with
      | .empty | .skip => none
      | cond => some cond, noted.warnings, noted.mainWarnURL⟩

end Signoz.FilterQuery
