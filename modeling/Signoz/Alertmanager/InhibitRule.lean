import Mathlib.Data.List.Basic

/-!
# Matchers and inhibit rules

The parts of the upstream configuration that rules refer to: `labels.Matcher` and
`config.InhibitRule`, with `matcherContainsRuleID` of `matcher.go`.
-/

namespace Signoz.Alertmanager

/-- `labels.Matcher` of the types in use: a comparison with a value, or with a regular
expression. -/
inductive Matcher where
  | equal (name value : String)
  | regexp (name value : String)
deriving DecidableEq

/-- `Name`. -/
def Matcher.name : Matcher → String
  | .equal name _ => name
  | .regexp name _ => name

/-- `Value`. -/
def Matcher.value : Matcher → String
  | .equal _ value => value
  | .regexp _ value => value

/-- `Matches`, where `regexpMatches` matches a text against an anchored expression. The name of
the matcher plays no part. -/
def Matcher.matches (regexpMatches : String → String → Bool) (m : Matcher) (s : String) : Bool :=
  match m with
  | .equal _ value => value = s
  | .regexp _ value => regexpMatches value s

/-- `matcherContainsRuleID`. -/
def matcherContainsRuleID (regexpMatches : String → String → Bool) (matchers : List Matcher)
    (ruleID : String) : Bool :=
  matchers.any fun matcher => matcher.matches regexpMatches ruleID

/-- `config.InhibitRule`. -/
structure InhibitRule where
  sourceMatchers : List Matcher
  targetMatchers : List Matcher
  equal : List String
deriving DecidableEq

end Signoz.Alertmanager
