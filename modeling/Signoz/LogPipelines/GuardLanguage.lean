import Mathlib.Data.List.Basic

/-!
# The language of nil checks

The part of the expression language that the generated nil checks are written in: a path from a
field of the log record through members, keys and indexes, comparisons of a path with `nil` and of a
length with a number, and conjunctions. An expression has a text, and a value on a log record.

What lies between two quotes is a key as it is written; `literal` is the string it stands for.
-/

namespace Signoz.LogPipelines

/-! ## Log records -/

/-- A value in a log record. What is neither a map nor an array has no parts. -/
inductive LogValue where
  | nil
  | leaf
  | map (fields : String → LogValue)
  | array (items : List LogValue)

/-- A log record, by its fields. -/
abbrev LogRecord := String → LogValue

def LogValue.isNil : LogValue → Bool
  | .nil => true
  | _ => false

/-! ## Expressions -/

/-- One step of a path. -/
inductive Access where
  | member (optional : Bool) (name : String)
  | key (quote : Char) (written : List Char)
  | index (n : Nat)
deriving DecidableEq

/-- A path from a field of the record. -/
structure FieldPath where
  root : String
  accesses : List Access
deriving DecidableEq

/-- A nil check. -/
inductive Guard where
  | notNil (path : FieldPath)
  | longer (path : FieldPath) (n : Nat)
  | paren (guard : Guard)
  | both (first second : Guard)
deriving DecidableEq

def Access.text : Access → List Char
  | .member true name => '?' :: '.' :: name.toList
  | .member false name => '.' :: name.toList
  | .key quote written => '[' :: quote :: written ++ [quote, ']']
  | .index n => '[' :: (toString n).toList ++ [']']

def FieldPath.text (path : FieldPath) : List Char :=
  path.root.toList ++ path.accesses.flatMap Access.text

def Guard.text : Guard → String
  | .notNil path => String.ofList path.text ++ " != nil"
  | .longer path n => "len(" ++ String.ofList path.text ++ ") > " ++ toString n
  | .paren guard => "(" ++ guard.text ++ ")"
  | .both first second => first.text ++ " && " ++ second.text

/-! ## Values -/

section Values

variable (literal : List Char → String)

/-- The value behind one step, if it can be taken: of `nil` there is an optional member, and the
member of a map that does not have it is `nil`. -/
def Access.value : Access → LogValue → Option LogValue
  | .member true _, .nil => some .nil
  | .member _ name, .map fields => some (fields name)
  | .key _ written, .map fields => some (fields (literal written))
  | .index n, .array items => items[n]?
  | _, _ => none

/-- The value behind several steps. -/
def walkAccesses : List Access → LogValue → Option LogValue
  | [], value => some value
  | access :: rest, value => (access.value literal value).bind (walkAccesses rest)

def FieldPath.value (path : FieldPath) (record : LogRecord) : Option LogValue :=
  walkAccesses literal path.accesses (record path.root)

/-- Whether a check holds; `none` when its evaluation fails. The second part of a conjunction is
evaluated when the first one holds. -/
def Guard.holds (record : LogRecord) : Guard → Option Bool
  | .notNil path => (path.value literal record).map fun value => !value.isNil
  | .longer path n =>
    (path.value literal record).bind fun value =>
      match value with
      | .array items => some (decide (n < items.length))
      | _ => none
  | .paren guard => guard.holds record
  | .both first second =>
    (first.holds record).bind fun holds => if holds then second.holds record else some false

end Values

/-! ## Conjunctions -/

/-- The conjunction of checks. -/
def Guard.all : Guard → List Guard → Guard
  | first, [] => first
  | first, second :: rest => .both first (Guard.all second rest)

theorem Guard.text_all (first : Guard) (rest : List Guard) :
    (Guard.all first rest).text = " && ".intercalate ((first :: rest).map Guard.text) := by
  induction rest generalizing first with
  | nil => simp [Guard.all]
  | cons second rest ih =>
    rw [Guard.all, Guard.text, ih]
    simp [String.intercalate_cons_cons]

section Values

variable {literal : List Char → String} {record : LogRecord}

theorem Guard.holds_both {first second : Guard} :
    (Guard.both first second).holds literal record = some true ↔
      first.holds literal record = some true ∧ second.holds literal record = some true := by
  rw [Guard.holds]
  cases first.holds literal record with
  | none => simp
  | some holds =>
    cases holds with
    | false => simp
    | true => simp

theorem Guard.holds_all {first : Guard} {rest : List Guard} :
    (Guard.all first rest).holds literal record = some true ↔
      ∀ guard ∈ first :: rest, guard.holds literal record = some true := by
  induction rest generalizing first with
  | nil => simp [Guard.all]
  | cons second rest ih =>
    rw [Guard.all, Guard.holds_both, ih, List.forall_mem_cons (a := first)]

theorem walkAccesses_append (before after : List Access) (value : LogValue) :
    walkAccesses literal (before ++ after) value =
      (walkAccesses literal before value).bind (walkAccesses literal after) := by
  induction before generalizing value with
  | nil => rfl
  | cons access rest ih =>
    rw [List.cons_append, walkAccesses, walkAccesses, Option.bind_assoc]
    congr 1
    funext value'
    exact ih value'

end Values

end Signoz.LogPipelines
