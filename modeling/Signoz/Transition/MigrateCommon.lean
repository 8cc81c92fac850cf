import Signoz.Transition.Value

/-!
# The v4 to v5 migration of a query

`migrate_common.go`: `updateQueryData` turns a v4 builder query into a v5 one, in place. A function
that changes the query returns it as it leaves it, with its result.

What `fmt` writes for a value is a parameter, and so is whether `Sscanf` finds a number at the
start of a text. A Go map is visited in the order of its entries.
-/

namespace Signoz.Transition

variable {F : Type}

/-- Of package `fmt`: `%v` and `%s` of any value, and whether `Sscanf` reads a `%f`. -/
structure Fmt (F : Type) where
  sprintV : Any F → String
  sprintS : Any F → String
  scansFloat : String → Bool

/-- `migrateCommon`; `ambiguity` has the ambiguous keys of a data source. -/
structure MigrateCommon (F : Type) where
  ambiguity : List (String × List String)
  fmt : Fmt F

/-! ## Values -/

/-- `unicode.IsSpace`. -/
def isSpace (c : Char) : Bool :=
  c.toNat ∈ [0x09, 0x0A, 0x0B, 0x0C, 0x0D, 0x20, 0x85, 0xA0, 0x1680, 0x2028, 0x2029, 0x202F, 0x205F,
    0x3000] || (0x2000 ≤ c.toNat && c.toNat ≤ 0x200A)

/-- `strings.TrimSpace`. -/
def trimSpace (s : List Char) : List Char :=
  ((s.dropWhile isSpace).reverse.dropWhile isSpace).reverse

/-- The regular expression `^before.*after$`. -/
def matchesAround (before after s : List Char) : Bool :=
  before.isPrefixOf s && after.isSuffixOf s && before.length + after.length ≤ s.length &&
    ((s.drop before.length).take (s.length - before.length - after.length)).all fun c => c ≠ '\n'

/-- `isVariable`. -/
def isVariable (s : String) : Bool :=
  let s := trimSpace s.toList
  matchesAround ['{'] ['}'] s || matchesAround ['{', '{'] ['}', '}'] s ||
    matchesAround ['$'] [] s || matchesAround ['[', '['] [']', ']'] s ||
    matchesAround ['$', '{', '{'] ['}', '}'] s

/-- `strings.TrimPrefix`. -/
def trimPrefix (before s : List Char) : List Char :=
  if before.isPrefixOf s then s.drop before.length else s

/-- `strings.TrimSuffix`. -/
def trimSuffix (after s : List Char) : List Char :=
  if after.isSuffixOf s then s.take (s.length - after.length) else s

/-- `normalizeVariable`. -/
def normalizeVariable (s : String) : String :=
  let s := trimSpace s.toList
  let around (before after : List Char) : Bool := before.isPrefixOf s && after.isSuffixOf s
  let inner (before after : List Char) : List Char :=
    trimPrefix ['.'] (trimPrefix before (trimSuffix after s))
  let name (varName : List Char) : String :=
    String.ofList ('$' :: varName.filter fun c => c ≠ ' ')
  if around ['{', '{'] ['}', '}'] then
    name (trimPrefix ['$'] (inner ['{', '{'] ['}', '}']))
  else if around ['{'] ['}'] then name (trimPrefix ['$'] (inner ['{'] ['}']))
  else if around ['[', '['] [']', ']'] then name (inner ['[', '['] [']', ']'])
  else if around ['$', '{', '{'] ['}', '}'] then
    name (trimPrefix ['$'] (inner ['$', '{', '{'] ['}', '}']))
  else String.ofList s

/-- `isNumericType`. -/
def isNumericType (dataType : String) : Bool :=
  dataType ∈ ["int", "int8", "int16", "int32", "int64", "uint", "uint8", "uint16", "uint32", "uint64",
    "float", "float32", "float64", "number", "numeric", "integer"]

/-- `'`. -/
def quote : Char := Char.ofNat 39

/-- `strings.ReplaceAll(v, "'", "\\'")`. -/
def escapeQuotes (s : List Char) : List Char :=
  s.flatMap fun c => if c = quote then ['\\', quote] else [c]

variable (mc : MigrateCommon F)

/-- `formatValue` of a string. -/
def formatString (dataType v : String) : String :=
  if isVariable v then normalizeVariable v
  else if isNumericType dataType && mc.fmt.scansFloat v then v
  else String.ofList (quote :: (escapeQuotes v.toList ++ [quote]))

mutual

/-- `formatValue`. -/
def formatValue (dataType : String) : Any F → String
  | .string v => formatString mc dataType v
  | .number x => mc.fmt.sprintV (.number x)
  | .int n => toString n
  | .bool b => if b then "true" else "false"
  | .list [v] => formatValue dataType v
  | .list l => "[" ++ ", ".intercalate (formatValues dataType l) ++ "]"
  | v => mc.fmt.sprintV v

def formatValues (dataType : String) : List (Any F) → List String
  | [] => []
  | v :: vs => formatValue dataType v :: formatValues dataType vs

end

/-! ## Conditions -/

/-- `IN`, or the comparison with the one value. -/
def buildInCondition (key formattedValue single multiple : String) : String :=
  if !"[".toList.isPrefixOf formattedValue.toList && !isVariable formattedValue then
    key ++ single ++ formattedValue
  else key ++ multiple ++ formattedValue

/-- `buildCondition`. -/
def buildCondition (key operator : String) (value : Any F) (keyMetadata : Obj F) : String :=
  let formattedValue := formatValue mc (keyMetadata.stringD "dataType") value
  match operator with
  | "=" => key ++ " = " ++ formattedValue
  | "!=" => key ++ " != " ++ formattedValue
  | ">" => key ++ " > " ++ formattedValue
  | ">=" => key ++ " >= " ++ formattedValue
  | "<" => key ++ " < " ++ formattedValue
  | "<=" => key ++ " <= " ++ formattedValue
  | "in" | "IN" => buildInCondition key formattedValue " = " " IN "
  | "nin" | "NOT IN" => buildInCondition key formattedValue " != " " NOT IN "
  | "like" | "LIKE" => key ++ " LIKE " ++ formattedValue
  | "nlike" | "NOT LIKE" => key ++ " NOT LIKE " ++ formattedValue
  | "contains" => key ++ " CONTAINS " ++ formattedValue
  | "ncontains" => key ++ " NOT CONTAINS " ++ formattedValue
  | "regex" => key ++ " REGEXP " ++ formattedValue
  | "nregex" => key ++ " NOT REGEXP " ++ formattedValue
  | "exists" => key ++ " EXISTS"
  | "nexists" => key ++ " NOT EXISTS"
  | "has" => "has(" ++ key ++ ", " ++ formattedValue ++ ")"
  | "nhas" => "NOT has(" ++ key ++ ", " ++ formattedValue ++ ")"
  | _ => key ++ " " ++ operator ++ " " ++ formattedValue

/-- The condition of an item; `none` where the source continues with the next one. -/
def itemCondition (dataSource : String) (item : Any F) : Option String := do
  let itemMap ← item.map?
  let key ← itemMap.map? "key"
  let operator ← itemMap.string? "op"
  let value ← itemMap.get "value"
  let keyStr ← key.string? "key"
  let ambiguous := ((mc.ambiguity.lookup dataSource).getD []).contains keyStr
  let keyStr :=
    match ambiguous, key.string? "type" with
    | true, some typeStr =>
      (if typeStr = "tag" then "attribute" else "resource") ++ "." ++ keyStr
    | _, _ => keyStr
  let condition := buildCondition mc keyStr operator value key
  if condition ≠ "" then some condition else none

/-- `buildExpression`. -/
def buildExpression (items : List (Any F)) (op dataSource : String) : String :=
  match items.filterMap (itemCondition mc dataSource) with
  | [] => ""
  | [condition] => condition
  | conditions => "(" ++ (" " ++ op ++ " ").intercalate conditions ++ ")"

end Signoz.Transition
