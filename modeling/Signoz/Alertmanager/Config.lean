import Mathlib.Data.List.Perm.Basic
import Signoz.Alertmanager.InhibitRule

/-!
# The alertmanager configuration

`Config` of `alertmanagertypes/config.go` with its operations, and the channels of `channel.go`.
A configuration is kept as the upstream structure; its stored form is the serialisation of that
structure and the hash of it, so the hash is a function of the structure.

What upstream does to a configuration is in `ConfigEnv`: it fills the settings of a receiver from
the global ones, and it may reject a configuration. A receiver's body stands for its settings with
upstream's own defaults, which reading them back leaves alone.
-/

namespace Signoz.Alertmanager

/-! ## Data -/

def defaultReceiverName : String := "default-receiver"

def ruleIDMatcherName : String := "ruleId"

def ruleIDMatcherValueSep : String := "|"

/-- A matcher that matches no rule, so that a new receiver gets no alerts. -/
def noRuleIDMatcher : Matcher := .regexp ruleIDMatcherName "-1"

/-- A route under the root route. -/
structure Route where
  receiver : String
  continues : Bool
  matchers : List Matcher
deriving DecidableEq

/-- `RouteConfig`: how the root route groups and repeats. -/
structure RouteConfig where
  groupByStr : List String
  groupInterval : Int
  groupWait : Int
  repeatInterval : Int
deriving DecidableEq

/-- `config.Receiver`. -/
structure Receiver (B : Type) where
  name : String
  body : B
deriving DecidableEq

/-- `config.Config`. -/
structure Config (G B : Type) where
  global : G
  route : RouteConfig
  routes : List Route
  receivers : List (Receiver B)
  inhibitRules : List InhibitRule
deriving DecidableEq

/-- `Channel`; its data are those of the receiver. -/
structure Channel (B : Type) where
  id : String
  name : String
  type : String
  data : Receiver B
deriving DecidableEq

/-- What comes from upstream and from the libraries. -/
structure ConfigEnv (G B H : Type) where
  /-- The global settings over the defaults of upstream. -/
  withDefaults : G → G
  /-- Settings of a receiver that are not set are taken from the global ones. -/
  complete : G → B → B
  complete_complete : ∀ g b, complete g (complete g b) = complete g b
  /-- The body of a receiver without any notification. -/
  empty : B
  complete_empty : ∀ g, complete g empty = empty
  /-- The checks of upstream. -/
  accepts : Config G B → Bool
  acceptsRoute : RouteConfig → Bool
  /-- The first kind of notification that a body configures. -/
  channelType : B → Option String
  /-- A regular expression compiles. -/
  compiles : String → Bool
  /-- The hash of the serialised configuration. -/
  hash : Config G B → H

section Operations

variable {G B H : Type} (env : ConfigEnv G B H)

/-! ## Rule ids in routes -/

/-- `labels.NewMatcher` for a regular expression on rule ids. -/
def newRuleIDMatcher (value : String) : Option Matcher :=
  if env.compiles value then some (.regexp ruleIDMatcherName value) else none

/-- `addRuleIDToRoute`. -/
def addRuleIDToRoute (ruleID : String) (route : Route) : Option Route :=
  match route.matchers.findIdx? fun m => m.name = ruleIDMatcherName with
  | none =>
    (newRuleIDMatcher env ruleID).map fun m => { route with matchers := route.matchers ++ [m] }
  | some i =>
    let existing := ((route.matchers[i]?.map Matcher.value).getD "").splitOn ruleIDMatcherValueSep
    if existing.contains ruleID then some route
    else
      (newRuleIDMatcher env (ruleIDMatcherValueSep.intercalate (existing ++ [ruleID]))).map
        fun m => { route with matchers := route.matchers.set i m }

/-- `removeRuleIDFromRoute`. -/
def removeRuleIDFromRoute (ruleID : String) (route : Route) : Option Route :=
  match route.matchers.findIdx? fun m => m.name = ruleIDMatcherName with
  | none => some route
  | some i =>
    let existing := ((route.matchers[i]?.map Matcher.value).getD "").splitOn ruleIDMatcherValueSep
    if !existing.contains ruleID then some route
    else if existing.erase ruleID = [] then
      some { route with matchers := route.matchers.eraseIdx i }
    else
      (newRuleIDMatcher env (ruleIDMatcherValueSep.intercalate (existing.erase ruleID))).map
        fun m => { route with matchers := route.matchers.set i m }

/-! ## Configurations -/

/-- `NewDefaultConfig`. -/
def newDefaultConfig (globalConfig : G) (routeConfig : RouteConfig) : Option (Config G B) :=
  if env.acceptsRoute routeConfig then
    some ⟨env.withDefaults globalConfig, routeConfig, [], [⟨defaultReceiverName, env.empty⟩], []⟩
  else none

/-- `UnmarshalYAML` of upstream: its checks, and the receivers completed from the global
settings. -/
def Config.unmarshalYAML (c : Config G B) : Option (Config G B) :=
  if env.accepts c then
    some { c with
      receivers := c.receivers.map fun r => ⟨r.name, env.complete c.global r.body⟩ }
  else none

/-- `SetGlobalConfig`. -/
def Config.setGlobalConfig (c : Config G B) (globalConfig : G) : Config G B :=
  { c with global := env.withDefaults globalConfig }

/-- `SetRouteConfig`. -/
def Config.setRouteConfig (c : Config G B) (routeConfig : RouteConfig) : Option (Config G B) :=
  if env.acceptsRoute routeConfig then some { c with route := routeConfig } else none

/-- `AddInhibitRules`. -/
def Config.addInhibitRules (c : Config G B) (rules : List InhibitRule) : Config G B :=
  { c with inhibitRules := c.inhibitRules ++ rules }

/-- `DeleteRuleIDInhibitor`. -/
def Config.deleteRuleIDInhibitor (regexpMatches : String → String → Bool) (c : Config G B)
    (ruleID : String) : Config G B :=
  { c with
    inhibitRules := c.inhibitRules.filter fun inhibitor =>
      !matcherContainsRuleID regexpMatches inhibitor.sourceMatchers ruleID &&
        !matcherContainsRuleID regexpMatches inhibitor.targetMatchers ruleID }

/-- `NewRouteFromReceiver`. -/
def newRouteFromReceiver (receiver : Receiver B) : Route :=
  ⟨receiver.name, true, [noRuleIDMatcher]⟩

/-- `CreateReceiver`. -/
def Config.createReceiver (c : Config G B) (receiver : Receiver B) : Option (Config G B) :=
  if c.receivers.any fun r => r.name = receiver.name then none
  else
    Config.unmarshalYAML env { c with
      routes := c.routes ++ [newRouteFromReceiver receiver]
      receivers := c.receivers ++ [receiver] }

/-- The loop of `UpdateReceiver`: the first receiver of the name is replaced. -/
def replaceReceiver (receiver : Receiver B) : List (Receiver B) → List (Receiver B)
  | [] => []
  | r :: rs => if r.name = receiver.name then receiver :: rs else r :: replaceReceiver receiver rs

/-- `UpdateReceiver`. -/
def Config.updateReceiver (c : Config G B) (receiver : Receiver B) : Option (Config G B) :=
  Config.unmarshalYAML env { c with receivers := replaceReceiver receiver c.receivers }

/-- `DeleteReceiver`. -/
def Config.deleteReceiver (c : Config G B) (name : String) : Option (Config G B) :=
  if name = "" then none
  else
    some { c with
      routes := c.routes.eraseP fun r => r.receiver = name
      receivers := c.receivers.eraseP fun r => r.name = name }

/-- `CreateRuleIDMatcher`. -/
def Config.createRuleIDMatcher (c : Config G B) (ruleID : String) (receiverNames : List String) :
    Option (Config G B) :=
  (c.routes.mapM fun route =>
    if receiverNames.contains route.receiver then addRuleIDToRoute env ruleID route
    else some route).map fun routes => { c with routes := routes }

/-- `DeleteRuleIDMatcher`. -/
def Config.deleteRuleIDMatcher (c : Config G B) (ruleID : String) : Option (Config G B) :=
  (c.routes.mapM (removeRuleIDFromRoute env ruleID)).map fun routes => { c with routes := routes }

/-! ## Channels -/

/-- `NewChannelFromReceiver`, with the generated id. -/
def newChannelFromReceiver (id : String) (receiver : Receiver B) : Option (Channel B) :=
  if receiver.name = defaultReceiverName then none
  else (env.channelType receiver.body).map fun type => ⟨id, receiver.name, type, receiver⟩

/-- `Channel.Update`. -/
def Channel.update (c : Channel B) (receiver : Receiver B) : Option (Channel B) :=
  (newChannelFromReceiver env c.id receiver).bind fun channel =>
    if c.name ≠ channel.name then none else some { c with data := channel.data }

/-- `NewConfigFromChannels`. -/
def newConfigFromChannels (globalConfig : G) (routeConfig : RouteConfig)
    (channels : List (Channel B)) : Option (Config G B) :=
  (newDefaultConfig env globalConfig routeConfig).bind fun cfg =>
    channels.foldlM (fun c channel => c.createReceiver env channel.data) cfg

end Operations

end Signoz.Alertmanager
