import Mathlib.Algebra.Group.Int.Defs
import Mathlib.Data.List.Basic

/-!
# Route policies and notification settings

`PostableRoutePolicy` and `RoutePolicy` of `expressionroute.go` and `NotificationConfig` of
`config.go`: what a rule asks of the alertmanager besides its inhibit rules.
-/

namespace Signoz.Alertmanager

/-- `ExpressionKind`. -/
inductive ExpressionKind where
  | rule
  | policy
  | other (value : String)
deriving DecidableEq

/-- `PostableRoutePolicy`. -/
structure PostableRoutePolicy where
  expression : String
  expressionKind : ExpressionKind
  channels : List String
  name : String
  description : String
  tags : List String

/-- `RoutePolicy`, without its id and its audit columns. -/
structure RoutePolicy extends PostableRoutePolicy where
  enabled : Bool
  orgID : String

/-- `PostableRoutePolicy.Validate`, as whether it finds no error; `compiles` is what the expression
library says of an expression. -/
def PostableRoutePolicy.validate (compiles : String → Bool) (p : PostableRoutePolicy) : Bool :=
  p.expression ≠ "" && p.name ≠ "" && !p.channels.isEmpty &&
    p.channels.all (fun channel => channel ≠ "") &&
    (p.expressionKind = .policy || p.expressionKind = .rule) && compiles p.expression

/-- `RoutePolicy.Validate`. -/
def RoutePolicy.validate (p : RoutePolicy) : Bool :=
  p.expression ≠ "" && p.name ≠ "" && p.orgID ≠ "" && !p.channels.isEmpty &&
    p.channels.all (fun channel => channel ≠ "") &&
    (p.expressionKind = .policy || p.expressionKind = .rule)

/-- The route policy of a request, as `CreateRoutePolicies` makes it. -/
def PostableRoutePolicy.routePolicy (orgID : String) (p : PostableRoutePolicy) : RoutePolicy :=
  { p with enabled := true, orgID := orgID }

/-! ## Notification settings -/

/-- `DefaultGroupBy`. -/
def defaultGroupBy : String := "ruleId"

/-- `DefaultGroupByAll`. -/
def defaultGroupByAll : String := "__all__"

/-- `NotificationConfig`, with the keys of its group in the order of insertion. -/
structure NotificationConfig where
  notificationGroup : List String
  renotifyInterval : Int
  noDataInterval : Int
  usePolicy : Bool
  groupByAll : Bool

/-- Nanoseconds of hours. -/
def hours (n : Int) : Int := n * 3600 * 10 ^ 9

/-- `GetDefaultNotificationConfig`. -/
def getDefaultNotificationConfig : NotificationConfig :=
  ⟨[defaultGroupBy], hours 4, hours 4, false, false⟩

/-- `NewNotificationConfig`. -/
def newNotificationConfig (groups : List String) (renotifyInterval noDataRenotifyInterval : Int)
    (policy : Bool) : NotificationConfig :=
  let default := getDefaultNotificationConfig
  { notificationGroup := groups.foldl (fun l g => if g ∈ l then l else l ++ [g])
      default.notificationGroup
    renotifyInterval :=
      if renotifyInterval ≠ 0 then renotifyInterval else default.renotifyInterval
    noDataInterval :=
      if noDataRenotifyInterval ≠ 0 then noDataRenotifyInterval else default.noDataInterval
    usePolicy := policy
    groupByAll := groups.contains defaultGroupByAll }

end Signoz.Alertmanager
