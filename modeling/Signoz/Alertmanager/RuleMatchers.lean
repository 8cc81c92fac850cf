import Signoz.Alertmanager.Service
import Signoz.Lib.SplitOn

/-!
# Rule ids in the routes of receivers

Which receivers get the alerts of a rule is kept in the routes: the route of a receiver has one
matcher, an alternation of rule ids that starts with one which no rule has. `config.go` changes
them with `CreateRuleIDMatcher`, `UpdateRuleIDMatcher` and `DeleteRuleIDMatcher`, and reads them
with `ReceiverNamesFromRuleID`.

The calls change a configuration in place, and one that returns an error leaves behind what it has
changed so far; `Config.after` is what a call leaves. New routes share `noRuleIDMatcher`, which is
never changed itself. The abstract state `RuleLinks` has the rule ids of each route as a list.
-/

namespace Signoz.Alertmanager

open Lib.SplitOn

/-! ## Calls -/

/-- The calls that change receivers and the rule ids of their routes. -/
inductive ConfigCall (B : Type) where
  | createReceiver (receiver : Receiver B)
  | deleteReceiver (name : String)
  | createRuleIDMatcher (ruleID : String) (receiverNames : List String)
  | updateRuleIDMatcher (ruleID : String) (receiverNames : List String)
  | deleteRuleIDMatcher (ruleID : String)

section Operations

variable {G B H : Type} (env : ConfigEnv G B H) (regexpMatches : String → String → Bool)

/-- `UpdateRuleIDMatcher`. -/
def Config.updateRuleIDMatcher (c : Config G B) (ruleID : String) (receiverNames : List String) :
    Option (Config G B) :=
  (c.deleteRuleIDMatcher env ruleID).bind fun c => c.createRuleIDMatcher env ruleID receiverNames

/-- `ReceiverNamesFromRuleID`. -/
def Config.receiverNamesFromRuleID (c : Config G B) (ruleID : String) : List String :=
  (c.routes.filter fun route => matcherContainsRuleID regexpMatches route.matchers ruleID).map
    Route.receiver

/-- A loop that changes the routes one by one, and ends at the first error. -/
def editRoutes (edit : Route → Option Route) : List Route → List Route
  | [] => []
  | route :: rest =>
    match edit route with
    | none => route :: rest
    | some edited => edited :: editRoutes edit rest

/-- The body of the loop of `CreateRuleIDMatcher`. -/
def addToNamed (ruleID : String) (receiverNames : List String) (route : Route) : Option Route :=
  if receiverNames.contains route.receiver then addRuleIDToRoute env ruleID route else some route

/-- The configuration that a call leaves, also where it returns an error. -/
def Config.after (c : Config G B) : ConfigCall B → Config G B
  | .createReceiver receiver =>
    if c.receivers.any fun r => r.name = receiver.name then c
    else
      let added : Config G B :=
        { c with
          routes := c.routes ++ [newRouteFromReceiver receiver]
          receivers := c.receivers ++ [receiver] }
      -- the route and the receiver stay where upstream rejects them
      (added.unmarshalYAML env).getD added
  | .deleteReceiver name => (c.deleteReceiver name).getD c
  | .createRuleIDMatcher ruleID receiverNames =>
    { c with routes := editRoutes (addToNamed env ruleID receiverNames) c.routes }
  | .updateRuleIDMatcher ruleID receiverNames =>
    let deleted := editRoutes (removeRuleIDFromRoute env ruleID) c.routes
    if (c.deleteRuleIDMatcher env ruleID).isSome then
      { c with routes := editRoutes (addToNamed env ruleID receiverNames) deleted }
    else { c with routes := deleted }
  | .deleteRuleIDMatcher ruleID =>
    { c with routes := editRoutes (removeRuleIDFromRoute env ruleID) c.routes }

/-! ## What the calls say -/

/-- A receiver is present after some calls, the latest first. -/
def Present (n : String) : List (ConfigCall B) → Prop
  | [] => n = defaultReceiverName
  | .createReceiver receiver :: past => receiver.name = n ∨ Present n past
  | .deleteReceiver name :: past => (name = "" ∨ name ≠ n) ∧ Present n past
  | .createRuleIDMatcher _ _ :: past => Present n past
  | .updateRuleIDMatcher _ _ :: past => Present n past
  | .deleteRuleIDMatcher _ :: past => Present n past

/-- A receiver is present that `CreateReceiver` has added. -/
def Created (n : String) : List (ConfigCall B) → Prop
  | [] => False
  | .createReceiver receiver :: past => (receiver.name = n ∧ ¬ Present n past) ∨ Created n past
  | .deleteReceiver name :: past => (name = "" ∨ name ≠ n) ∧ Created n past
  | .createRuleIDMatcher _ _ :: past => Created n past
  | .updateRuleIDMatcher _ _ :: past => Created n past
  | .deleteRuleIDMatcher _ :: past => Created n past

/-- Since the last delete or update of a rule, some call for it has named a receiver that had been
created, and the receiver has not been deleted since. -/
def Named (r n : String) : List (ConfigCall B) → Prop
  | [] => False
  | .createReceiver _ :: past => Named r n past
  | .deleteReceiver name :: past => (name = "" ∨ name ≠ n) ∧ Named r n past
  | .createRuleIDMatcher ruleID receiverNames :: past =>
    (ruleID = r ∧ n ∈ receiverNames ∧ Created n past) ∨ Named r n past
  | .updateRuleIDMatcher ruleID receiverNames :: past =>
    (ruleID = r ∧ n ∈ receiverNames ∧ Created n past) ∨ (ruleID ≠ r ∧ Named r n past)
  | .deleteRuleIDMatcher ruleID :: past => ruleID ≠ r ∧ Named r n past

/-- A call adds a rule to the route of a receiver, if it has one. -/
def ConfigCall.adds (r n : String) : ConfigCall B → Prop
  | .createRuleIDMatcher ruleID receiverNames => ruleID = r ∧ n ∈ receiverNames
  | .updateRuleIDMatcher ruleID receiverNames => ruleID = r ∧ n ∈ receiverNames
  | _ => False

/-- A call is about the receivers of a rule. -/
def ConfigCall.isAbout (r : String) : ConfigCall B → Prop
  | .createRuleIDMatcher ruleID _ => ruleID = r
  | .updateRuleIDMatcher ruleID _ => ruleID = r
  | .deleteRuleIDMatcher ruleID => ruleID = r
  | _ => False

end Operations

/-! ## Rule ids in regular expressions -/

/-- The characters with a meaning of their own in a regular expression. -/
def specialChars : List Char :=
  ['\\', '.', '+', '*', '?', '(', ')', '|', '[', ']', '{', '}', '^', '$']

/-- A text that a regular expression takes as it is. -/
def Literal (s : String) : Prop := ∀ c ∈ s.toList, c ∉ specialChars

theorem literal_iff {s : String} :
    Literal s ↔ (s.toList.all fun c => !specialChars.contains c) = true := by
  simp [Literal]

instance (s : String) : Decidable (Literal s) := decidable_of_iff' _ literal_iff

/-- The rule id of `noRuleIDMatcher`. -/
def noRuleID : String := "-1"

/-- A rule id that can be told from the others in a regular expression. -/
def IsRuleID (id : String) : Prop := Literal id ∧ id ≠ noRuleID

/-- The rule ids of a call are such. -/
def ConfigCall.IsClean {B : Type} (call : ConfigCall B) : Prop :=
  ∀ r, call.isAbout r → IsRuleID r

/-- Of package `regexp`: literal texts with `|` between them compile, and match themselves. -/
structure LiteralAlternations (compiles : String → Bool)
    (regexpMatches : String → String → Bool) : Prop where
  compiles : ∀ texts : List String, texts ≠ [] → (∀ t ∈ texts, Literal t) →
    compiles (ruleIDMatcherValueSep.intercalate texts) = true
  regexpMatches : ∀ texts : List String, texts ≠ [] → (∀ t ∈ texts, Literal t) → ∀ s,
    regexpMatches (ruleIDMatcherValueSep.intercalate texts) s = texts.contains s

theorem Literal.not_sep {s : String} (h : Literal s) : '|' ∉ s.toList :=
  fun hmem => h '|' hmem (by decide)

theorem literal_noRuleID : Literal noRuleID := by decide

/-- The ids of a route, with the one that no rule has. -/
theorem literal_ids {ids : List String} (h : ∀ id ∈ ids, IsRuleID id) :
    ∀ t ∈ noRuleID :: ids, Literal t := by
  intro t ht
  rcases List.mem_cons.1 ht with rfl | ht
  · exact literal_noRuleID
  · exact (h t ht).1

/-! ## Routes -/

/-- The matcher of a route with some rule ids. -/
def ruleIDsMatcher (ids : List String) : Matcher :=
  .regexp ruleIDMatcherName (ruleIDMatcherValueSep.intercalate (noRuleID :: ids))

/-- A route has these rule ids, and no others. -/
structure HasRuleIDs (ids : List String) (route : Route) : Prop where
  matchers : route.matchers = [ruleIDsMatcher ids]
  nodup : ids.Nodup
  isRuleID : ∀ id ∈ ids, IsRuleID id

theorem splitOn_ruleIDs {ids : List String} (h : ∀ id ∈ ids, IsRuleID id) :
    (ruleIDMatcherValueSep.intercalate (noRuleID :: ids)).splitOn ruleIDMatcherValueSep =
      noRuleID :: ids :=
  splitOn_intercalate '|' (List.cons_ne_nil _ _) fun t ht => (literal_ids h t ht).not_sep

theorem HasRuleIDs.new {B : Type} (receiver : Receiver B) :
    HasRuleIDs [] (newRouteFromReceiver receiver) where
  matchers := by
    rw [ruleIDsMatcher, String.intercalate_singleton]
    rfl
  nodup := List.nodup_nil
  isRuleID := fun _ h => absurd h List.not_mem_nil

section Routes

variable {G B H : Type} {env : ConfigEnv G B H} {regexpMatches : String → String → Bool}

theorem findIdx?_ruleIDsMatcher (ids : List String) :
    ([ruleIDsMatcher ids].findIdx? fun m => m.name = ruleIDMatcherName) = some 0 := by
  simp [List.findIdx?_cons, ruleIDsMatcher, Matcher.name]

variable {ids : List String}

theorem newRuleIDMatcher_eq (hregexp : LiteralAlternations env.compiles regexpMatches)
    (h : ∀ id ∈ ids, IsRuleID id) :
    newRuleIDMatcher env (ruleIDMatcherValueSep.intercalate (noRuleID :: ids)) =
      some (ruleIDsMatcher ids) := by
  rw [newRuleIDMatcher, hregexp.compiles _ (List.cons_ne_nil _ _) (literal_ids h), if_pos rfl]
  rfl

/-- The rule ids after one has been added. -/
def withID (ruleID : String) (ids : List String) : List String :=
  if ruleID ∈ ids then ids else ids ++ [ruleID]

theorem mem_withID {ruleID r : String} :
    r ∈ withID ruleID ids ↔ ruleID = r ∨ r ∈ ids := by
  unfold withID
  split
  · rename_i hmem
    exact ⟨Or.inr, fun h => h.elim (fun heq => heq ▸ hmem) id⟩
  · rw [List.mem_append, List.mem_singleton, eq_comm, or_comm]

variable {route : Route}

theorem HasRuleIDs.add (hregexp : LiteralAlternations env.compiles regexpMatches)
    (h : HasRuleIDs ids route) {ruleID : String} (hid : IsRuleID ruleID) :
    ∃ added, addRuleIDToRoute env ruleID route = some added ∧
      added.receiver = route.receiver ∧ HasRuleIDs (withID ruleID ids) added := by
  have hsplit := splitOn_ruleIDs h.isRuleID
  simp only [addRuleIDToRoute, h.matchers, findIdx?_ruleIDsMatcher, List.getElem?_cons_zero,
    Option.map_some, Option.getD_some]
  rw [ruleIDsMatcher, Matcher.value, hsplit]
  by_cases hmem : ruleID ∈ ids
  · have hcontains : (noRuleID :: ids).contains ruleID = true := by
      simpa using Or.inr hmem
    rw [if_pos hcontains, withID, if_pos hmem]
    exact ⟨route, rfl, rfl, h⟩
  · have hcontains : ¬ (noRuleID :: ids).contains ruleID = true := by
      simpa using ⟨hid.2, hmem⟩
    have hisRuleID : ∀ id ∈ ids ++ [ruleID], IsRuleID id := by
      intro id hmem
      rcases List.mem_append.1 hmem with hold | hnew
      · exact h.isRuleID id hold
      · rw [List.mem_singleton.1 hnew]
        exact hid
    rw [if_neg hcontains, withID, if_neg hmem, List.cons_append,
      newRuleIDMatcher_eq hregexp hisRuleID, Option.map_some]
    refine ⟨_, rfl, rfl, ?_, ?_, hisRuleID⟩
    · rfl
    · rw [List.nodup_append]
      refine ⟨h.nodup, List.nodup_singleton _, ?_⟩
      rintro id hold other hnew rfl
      exact hmem (List.mem_singleton.1 hnew ▸ hold)

theorem HasRuleIDs.remove (hregexp : LiteralAlternations env.compiles regexpMatches)
    (h : HasRuleIDs ids route) {ruleID : String} (hid : IsRuleID ruleID) :
    ∃ removed, removeRuleIDFromRoute env ruleID route = some removed ∧
      removed.receiver = route.receiver ∧ HasRuleIDs (ids.erase ruleID) removed := by
  have hsplit := splitOn_ruleIDs h.isRuleID
  have hisRuleID : ∀ id ∈ ids.erase ruleID, IsRuleID id :=
    fun id hmem => h.isRuleID id (List.mem_of_mem_erase hmem)
  have herase : (noRuleID :: ids).erase ruleID = noRuleID :: ids.erase ruleID :=
    List.erase_cons_tail (by simpa using Ne.symm hid.2)
  simp only [removeRuleIDFromRoute, h.matchers, findIdx?_ruleIDsMatcher, List.getElem?_cons_zero,
    Option.map_some, Option.getD_some]
  rw [ruleIDsMatcher, Matcher.value, hsplit, herase]
  by_cases hmem : ruleID ∈ ids
  · have hcontains : (noRuleID :: ids).contains ruleID = true := by
      simpa using Or.inr hmem
    -- the id that no rule has is left, so the matcher is not dropped
    rw [hcontains, if_neg (by simp), if_neg (List.cons_ne_nil _ _),
      newRuleIDMatcher_eq hregexp hisRuleID, Option.map_some]
    exact ⟨_, rfl, rfl, rfl, h.nodup.erase _, hisRuleID⟩
  · have hcontains : (noRuleID :: ids).contains ruleID = false := by
      simpa using ⟨hid.2, hmem⟩
    rw [hcontains, if_pos (by simp)]
    refine ⟨route, rfl, rfl, ?_⟩
    rw [List.erase_of_not_mem hmem]
    exact h

theorem HasRuleIDs.matches (hregexp : LiteralAlternations env.compiles regexpMatches)
    (h : HasRuleIDs ids route) (r : String) :
    matcherContainsRuleID regexpMatches route.matchers r = (noRuleID :: ids).contains r := by
  rw [matcherContainsRuleID, h.matchers, List.any_cons, List.any_nil, Bool.or_false,
    ruleIDsMatcher, Matcher.matches]
  exact hregexp.regexpMatches _ (List.cons_ne_nil _ _) (literal_ids h.isRuleID) r

end Routes

/-! ## Links -/

/-- The names of the receivers, and the rule ids of each route under its receiver. -/
structure RuleLinks where
  receivers : List String
  rows : List (String × List String)

def addToRow (ruleID : String) (receiverNames : List String) (row : String × List String) :
    String × List String :=
  if receiverNames.contains row.1 then (row.1, withID ruleID row.2) else row

def removeFromRow (ruleID : String) (row : String × List String) : String × List String :=
  (row.1, row.2.erase ruleID)

def RuleLinks.after {B : Type} (links : RuleLinks) : ConfigCall B → RuleLinks
  | .createReceiver receiver =>
    if receiver.name ∈ links.receivers then links
    else ⟨links.receivers ++ [receiver.name], links.rows ++ [(receiver.name, [])]⟩
  | .deleteReceiver name =>
    if name = "" then links
    else ⟨links.receivers.erase name, links.rows.eraseP fun row => row.1 = name⟩
  | .createRuleIDMatcher ruleID receiverNames =>
    { links with rows := links.rows.map (addToRow ruleID receiverNames) }
  | .updateRuleIDMatcher ruleID receiverNames =>
    { links with
      rows := (links.rows.map (removeFromRow ruleID)).map (addToRow ruleID receiverNames) }
  | .deleteRuleIDMatcher ruleID => { links with rows := links.rows.map (removeFromRow ruleID) }

/-- A route is as a row says. -/
structure RowOf (row : String × List String) (route : Route) : Prop where
  receiver : route.receiver = row.1
  ids : HasRuleIDs row.2 route

/-- Erasing the first item with a key erases the key. -/
theorem map_eraseP_key {A : Type} (key : A → String) (name : String) (items : List A) :
    (items.eraseP fun a => key a = name).map key = (items.map key).erase name := by
  induction items with
  | nil => rfl
  | cons item items ih =>
    rw [List.eraseP_cons, List.map_cons, List.erase_cons]
    by_cases hname : key item = name
    · simp [hname]
    · simp [hname, ih]

section Refinement

variable {G B H : Type} {env : ConfigEnv G B H} {regexpMatches : String → String → Bool}

/-- A configuration has these links. -/
structure Represents (links : RuleLinks) (c : Config G B) : Prop where
  receivers : c.receivers.map Receiver.name = links.receivers
  rows : List.Forall₂ RowOf links.rows c.routes

theorem RowOf.add (hregexp : LiteralAlternations env.compiles regexpMatches)
    {row : String × List String} {route : Route} (h : RowOf row route) {ruleID : String}
    (hid : IsRuleID ruleID) (receiverNames : List String) :
    ∃ added, addToNamed env ruleID receiverNames route = some added ∧
      RowOf (addToRow ruleID receiverNames row) added := by
  rw [addToNamed, addToRow, h.receiver]
  by_cases hnamed : receiverNames.contains row.1 = true
  · obtain ⟨added, hadded, hreceiver, hids⟩ := h.ids.add hregexp hid
    rw [if_pos hnamed, if_pos hnamed]
    exact ⟨added, hadded, hreceiver.trans h.receiver, hids⟩
  · rw [if_neg hnamed, if_neg hnamed]
    exact ⟨route, rfl, h⟩

theorem RowOf.remove (hregexp : LiteralAlternations env.compiles regexpMatches)
    {row : String × List String} {route : Route} (h : RowOf row route) {ruleID : String}
    (hid : IsRuleID ruleID) :
    ∃ removed, removeRuleIDFromRoute env ruleID route = some removed ∧
      RowOf (removeFromRow ruleID row) removed := by
  obtain ⟨removed, hremoved, hreceiver, hids⟩ := h.ids.remove hregexp hid
  exact ⟨removed, hremoved, hreceiver.trans h.receiver, hids⟩

variable {edit : Route → Option Route} {rows : List (String × List String)} {routes : List Route}

/-- An edit that does what a function of rows does goes through all the routes. -/
theorem mapM_rows {f : String × List String → String × List String}
    (hedit : ∀ row route, RowOf row route → ∃ edited, edit route = some edited ∧
      RowOf (f row) edited) (h : List.Forall₂ RowOf rows routes) :
    ∃ edited, routes.mapM edit = some edited ∧ List.Forall₂ RowOf (rows.map f) edited := by
  induction h with
  | nil => exact ⟨[], rfl, List.Forall₂.nil⟩
  | cons hrow _ ih =>
    obtain ⟨first, hfirst, hfirstRow⟩ := hedit _ _ hrow
    obtain ⟨rest, hrest, hrestRows⟩ := ih
    refine ⟨first :: rest, ?_, List.Forall₂.cons hfirstRow hrestRows⟩
    rw [List.mapM_cons, hfirst, hrest]
    rfl

theorem editRoutes_of_mapM {routes edited : List Route} (h : routes.mapM edit = some edited) :
   editRoutes edit routes = edited := by
  induction routes generalizing edited with
  | nil =>
    cases h
    rfl
  | cons route routes ih =>
    rw [List.mapM_cons] at h
    obtain ⟨first, hfirst, h⟩ := Option.bind_eq_some_iff.1 h
    obtain ⟨rest, hrest, h⟩ := Option.bind_eq_some_iff.1 h
    cases h
    rw [editRoutes, hfirst, ih hrest]

theorem editRoutes_rows {f : String × List String → String × List String}
    (hedit : ∀ row route, RowOf row route → ∃ edited, edit route = some edited ∧
      RowOf (f row) edited) (h : List.Forall₂ RowOf rows routes) :
    List.Forall₂ RowOf (rows.map f) (editRoutes edit routes) := by
  obtain ⟨edited, hmapM, hrows⟩ := mapM_rows hedit h
  rw [editRoutes_of_mapM hmapM]
  exact hrows

theorem eraseP_rows (name : String) (h : List.Forall₂ RowOf rows routes) :
    List.Forall₂ RowOf (rows.eraseP fun row => row.1 = name)
      (routes.eraseP fun route => route.receiver = name) := by
  induction h with
  | nil => exact List.Forall₂.nil
  | @cons row route _ _ hrow hrest ih =>
    rw [List.eraseP_cons, List.eraseP_cons, hrow.receiver]
    by_cases hname : row.1 = name
    · simpa [hname] using hrest
    · simpa [hname] using ⟨hrow, ih⟩

variable (env) in
theorem receivers_after_create (c : Config G B) (receiver : Receiver B)
    (hfree : ¬ (c.receivers.any fun r => r.name = receiver.name) = true) :
    ((c.after env (.createReceiver receiver)).receivers.map Receiver.name =
        c.receivers.map Receiver.name ++ [receiver.name]) ∧
      (c.after env (.createReceiver receiver)).routes =
        c.routes ++ [newRouteFromReceiver receiver] := by
  rw [Config.after, if_neg hfree]
  simp only [Config.unmarshalYAML]
  split
  · simp
  · simp

/-- Calls with rule ids that are such do to a configuration what they do to its links. -/
theorem Represents.after (hregexp : LiteralAlternations env.compiles regexpMatches)
    {links : RuleLinks} {c : Config G B} (h : Represents links c) {call : ConfigCall B}
    (hclean : call.IsClean) : Represents (links.after call) (c.after env call) := by
  cases call with
  | createReceiver receiver =>
    have hany : (c.receivers.any fun r => r.name = receiver.name) = true ↔
        receiver.name ∈ links.receivers := by
      rw [← h.receivers, List.mem_map, List.any_eq_true]
      simp
    rw [RuleLinks.after]
    by_cases hmem : receiver.name ∈ links.receivers
    · rw [if_pos hmem, Config.after, if_pos (hany.2 hmem)]
      exact h
    · obtain ⟨hreceivers, hroutes⟩ := receivers_after_create env c receiver
        fun hused => hmem (hany.1 hused)
      rw [if_neg hmem]
      refine ⟨?_, ?_⟩
      · rw [hreceivers, h.receivers]
      · rw [hroutes]
        exact List.rel_append h.rows (.cons ⟨rfl, HasRuleIDs.new receiver⟩ .nil)
  | deleteReceiver name =>
    rw [RuleLinks.after, Config.after, Config.deleteReceiver]
    by_cases hname : name = ""
    · rw [if_pos hname, if_pos hname]
      exact h
    · rw [if_neg hname, if_neg hname, Option.getD_some]
      refine ⟨?_, eraseP_rows name h.rows⟩
      rw [map_eraseP_key Receiver.name, h.receivers]
  | createRuleIDMatcher ruleID receiverNames =>
    have hid := hclean ruleID rfl
    exact ⟨h.receivers, editRoutes_rows (fun row route hrow => hrow.add hregexp hid _) h.rows⟩
  | updateRuleIDMatcher ruleID receiverNames =>
    have hid := hclean ruleID rfl
    have hremove := fun row route (hrow : RowOf row route) => hrow.remove hregexp hid
    obtain ⟨deleted, hdeleted, -⟩ := mapM_rows hremove h.rows
    have hsome : (c.deleteRuleIDMatcher env ruleID).isSome = true := by
      rw [Config.deleteRuleIDMatcher, hdeleted]
      rfl
    simp only [Config.after, hsome, if_true]
    exact ⟨h.receivers, editRoutes_rows (fun row route hrow => hrow.add hregexp hid _)
      (editRoutes_rows hremove h.rows)⟩
  | deleteRuleIDMatcher ruleID =>
    have hid := hclean ruleID rfl
    exact ⟨h.receivers, editRoutes_rows (fun row route hrow => hrow.remove hregexp hid) h.rows⟩

/-- The receivers that are listed for a rule are those of the rows that have it. -/
theorem filter_rows (hregexp : LiteralAlternations env.compiles regexpMatches) (r : String)
    (h : List.Forall₂ RowOf rows routes) :
    (routes.filter fun route => matcherContainsRuleID regexpMatches route.matchers r).map
        Route.receiver =
      (rows.filter fun row => (noRuleID :: row.2).contains r).map Prod.fst := by
  induction h with
  | nil => rfl
  | cons hrow _ ih =>
    rw [List.filter_cons, List.filter_cons, hrow.ids.matches hregexp]
    split
    · rw [List.map_cons, List.map_cons, hrow.receiver, ih]
    · exact ih

theorem Represents.receiverNames (hregexp : LiteralAlternations env.compiles regexpMatches)
    {links : RuleLinks} {c : Config G B} (h : Represents links c) (r : String) :
    c.receiverNamesFromRuleID regexpMatches r =
      (links.rows.filter fun row => (noRuleID :: row.2).contains r).map Prod.fst :=
  filter_rows hregexp r h.rows

end Refinement

/-! ## Links and the calls before -/

section History

variable {B : Type}

/-- Links are what the calls before say. -/
structure LinksOf (past : List (ConfigCall B)) (links : RuleLinks) : Prop where
  receivers : links.receivers.Nodup
  present : ∀ n, n ∈ links.receivers ↔ Present n past
  rows : (links.rows.map Prod.fst).Nodup
  created : ∀ n, n ∈ links.rows.map Prod.fst ↔ Created n past
  named : ∀ row ∈ links.rows, ∀ r, r ∈ row.2 ↔ Named r row.1 past
  ids : ∀ row ∈ links.rows, row.2.Nodup

variable {past : List (ConfigCall B)}

theorem Created.present {n : String} (h : Created n past) :
    Present n past := by
  induction past with
  | nil => cases h
  | cons call past ih =>
    cases call with
    | createReceiver receiver => exact h.imp And.left ih
    | deleteReceiver name => exact h.imp id ih
    | createRuleIDMatcher ruleID receiverNames => exact ih h
    | updateRuleIDMatcher ruleID receiverNames => exact ih h
    | deleteRuleIDMatcher ruleID => exact ih h

theorem Named.created {r n : String} (h : Named r n past) :
    Created n past := by
  induction past with
  | nil => cases h
  | cons call past ih =>
    cases call with
    | createReceiver receiver => exact Or.inr (ih h)
    | deleteReceiver name => exact h.imp id ih
    | createRuleIDMatcher ruleID receiverNames => exact h.elim (fun h => h.2.2) ih
    | updateRuleIDMatcher ruleID receiverNames => exact h.elim (fun h => h.2.2) fun h => ih h.2
    | deleteRuleIDMatcher ruleID => exact ih h.2

/-- What is named was added by a call. -/
theorem Named.exists_adds {r n : String} (h : Named r n past) :
    ∃ call ∈ past, call.adds r n := by
  induction past with
  | nil => cases h
  | cons call past ih =>
    have hlater : Named r n past → ∃ c ∈ call :: past, c.adds r n := fun h =>
      let ⟨c, hc, hadds⟩ := ih h
      ⟨c, List.mem_cons_of_mem _ hc, hadds⟩
    cases call with
    | createReceiver receiver => exact hlater h
    | deleteReceiver name => exact hlater h.2
    | createRuleIDMatcher ruleID receiverNames =>
      exact h.elim (fun h => ⟨_, List.mem_cons_self, h.1, h.2.1⟩) hlater
    | updateRuleIDMatcher ruleID receiverNames =>
      exact h.elim (fun h => ⟨_, List.mem_cons_self, h.1, h.2.1⟩) fun h => hlater h.2
    | deleteRuleIDMatcher ruleID => exact hlater h.2

theorem addToRow_fst (ruleID : String) (receiverNames : List String) (row : String × List String) :
    (addToRow ruleID receiverNames row).1 = row.1 := by
  unfold addToRow
  split <;> rfl

theorem mem_addToRow {ruleID r : String} {receiverNames : List String}
    {row : String × List String} :
    r ∈ (addToRow ruleID receiverNames row).2 ↔
      (ruleID = r ∧ row.1 ∈ receiverNames) ∨ r ∈ row.2 := by
  unfold addToRow
  split
  · rename_i hnamed
    have hmem : row.1 ∈ receiverNames := by simpa using hnamed
    rw [mem_withID, and_iff_left hmem]
  · rename_i hnamed
    have hmem : row.1 ∉ receiverNames := by simpa using hnamed
    simp [hmem]

theorem nodup_addToRow (ruleID : String) (receiverNames : List String)
    {row : String × List String} (h : row.2.Nodup) :
    (addToRow ruleID receiverNames row).2.Nodup := by
  unfold addToRow withID
  split
  · split
    · exact h
    · rename_i hnot
      rw [List.nodup_append]
      refine ⟨h, List.nodup_singleton _, ?_⟩
      rintro id hold other hnew rfl
      exact hnot (List.mem_singleton.1 hnew ▸ hold)
  · exact h

variable {links : RuleLinks}

theorem LinksOf.after_createReceiver (h : LinksOf past links) (receiver : Receiver B) :
    LinksOf (.createReceiver receiver :: past) (links.after (.createReceiver receiver)) := by
  rw [RuleLinks.after]
  by_cases hmem : receiver.name ∈ links.receivers
  · have hpresent := (h.present receiver.name).1 hmem
    rw [if_pos hmem]
    refine ⟨h.receivers, fun n => ?_, h.rows, fun n => ?_, h.named, h.ids⟩
    · rw [h.present]
      exact ⟨Or.inr, fun hn => hn.elim (fun heq => heq ▸ hpresent) id⟩
    · rw [h.created]
      exact ⟨Or.inr, fun hn => hn.elim (fun hnew => absurd (hnew.1 ▸ hpresent) hnew.2) id⟩
  · have habsent : ¬ Present receiver.name past := fun hn => hmem ((h.present _).2 hn)
    have hnoRow : receiver.name ∉ links.rows.map Prod.fst :=
      fun hn => habsent ((h.created _).1 hn).present
    rw [if_neg hmem]
    refine ⟨?_, fun n => ?_, ?_, fun n => ?_, ?_, ?_⟩
    · exact List.nodup_append.2 ⟨h.receivers, List.nodup_singleton _, fun n hn m hm heq =>
        hmem (List.mem_singleton.1 hm ▸ heq ▸ hn)⟩
    · rw [List.mem_append, List.mem_singleton, h.present, or_comm]
      exact or_congr_left eq_comm
    · rw [List.map_append]
      refine List.nodup_append.2 ⟨h.rows, List.nodup_singleton _, fun n hn m hm heq => ?_⟩
      have hm' : m = receiver.name := List.mem_singleton.1 hm
      exact hnoRow (hm' ▸ heq ▸ hn)
    · rw [List.map_append, List.mem_append, h.created, or_comm]
      refine or_congr_left ?_
      rw [List.map_singleton, List.mem_singleton]
      exact ⟨fun heq => heq ▸ ⟨rfl, habsent⟩, fun hn => hn.1.symm⟩
    · intro row hrow r
      rcases List.mem_append.1 hrow with hold | hnew
      · exact h.named row hold r
      · rw [List.mem_singleton.1 hnew]
        -- a new route has no rule, and a receiver that was absent is not named
        refine ⟨fun hr => absurd hr List.not_mem_nil, fun hr => ?_⟩
        have hbefore : Named r receiver.name past := hr
        exact absurd hbefore.created.present habsent
    · intro row hrow
      rcases List.mem_append.1 hrow with hold | hnew
      · exact h.ids row hold
      · rw [List.mem_singleton.1 hnew]
        exact List.nodup_nil

theorem LinksOf.after_deleteReceiver (h : LinksOf past links) (name : String) :
    LinksOf (.deleteReceiver name :: past) (links.after (.deleteReceiver name : ConfigCall B)) := by
  rw [RuleLinks.after]
  by_cases hname : name = ""
  · have hkeep : ∀ {n : String} {p : Prop}, p ↔ (name = "" ∨ name ≠ n) ∧ p :=
      fun {n p} => (and_iff_right (Or.inl hname)).symm
    rw [if_pos hname]
    exact ⟨h.receivers, fun n => (h.present n).trans hkeep, h.rows,
      fun n => (h.created n).trans hkeep, fun row hrow r => (h.named row hrow r).trans hkeep, h.ids⟩
  · have hne : ∀ {n : String}, n ≠ name ↔ (name = "" ∨ name ≠ n) :=
      fun {n} => ⟨fun hn => Or.inr (Ne.symm hn), fun hn => (hn.resolve_left hname).symm⟩
    have hkeys := map_eraseP_key (Prod.fst : String × List String → String) name links.rows
    have hrow : ∀ row ∈ links.rows.eraseP (fun row => row.1 = name),
        row ∈ links.rows ∧ row.1 ≠ name := by
      intro row hrow
      have hmem := List.mem_map_of_mem (f := Prod.fst) hrow
      rw [hkeys, h.rows.mem_erase_iff] at hmem
      exact ⟨List.mem_of_mem_eraseP hrow, hmem.1⟩
    rw [if_neg hname]
    refine ⟨h.receivers.erase name, fun n => ?_, ?_, fun n => ?_, fun row hmem r => ?_, ?_⟩
    · rw [h.receivers.mem_erase_iff, h.present, hne]
      rfl
    · rw [hkeys]
      exact h.rows.erase name
    · rw [hkeys, h.rows.mem_erase_iff, h.created, hne]
      rfl
    · obtain ⟨hold, hother⟩ := hrow row hmem
      rw [h.named row hold]
      exact (and_iff_right (hne.1 hother)).symm
    · exact fun row hmem => h.ids row (hrow row hmem).1

/-- What an edit of the rows has to do. -/
theorem LinksOf.edit {past past' : List (ConfigCall B)} (h : LinksOf past links)
    (f : String × List String → String × List String)
    (hpresent : ∀ n, Present n past' ↔ Present n past)
    (hcreated : ∀ n, Created n past' ↔ Created n past) (hfst : ∀ row, (f row).1 = row.1)
    (hids : ∀ row : String × List String, row.2.Nodup →
      (f row).2.Nodup)
    (hnamed : ∀ row : String × List String, Created row.1 past → row.2.Nodup →
      ∀ r, (r ∈ row.2 ↔ Named r row.1 past) → (r ∈ (f row).2 ↔ Named r row.1 past')) :
    LinksOf past' { links with rows := links.rows.map f } := by
  have hkeys : (links.rows.map f).map Prod.fst = links.rows.map Prod.fst := by
    rw [List.map_map]
    exact List.map_congr_left fun row _ => hfst row
  refine ⟨h.receivers, fun n => ?_, ?_, fun n => ?_, ?_, ?_⟩
  · rw [h.present, hpresent]
  · rw [hkeys]
    exact h.rows
  · rw [hkeys, h.created, hcreated]
  · rw [List.forall_mem_map]
    intro row hrow r
    rw [hfst]
    have hcreatedRow := (h.created row.1).1 (List.mem_map_of_mem hrow)
    exact hnamed row hcreatedRow (h.ids row hrow) r (h.named row hrow r)
  · rw [List.forall_mem_map]
    exact fun row hrow => hids row (h.ids row hrow)

theorem LinksOf.after (h : LinksOf past links) (call : ConfigCall B) :
   LinksOf (call :: past) (links.after call) := by
  cases call with
  | createReceiver receiver => exact h.after_createReceiver receiver
  | deleteReceiver name => exact h.after_deleteReceiver name
  | createRuleIDMatcher ruleID receiverNames =>
    refine h.edit (addToRow ruleID receiverNames) (fun n => Iff.rfl) (fun n => Iff.rfl)
      (addToRow_fst ruleID receiverNames)
      (fun row => nodup_addToRow ruleID receiverNames) fun row hcreated _ r hr => ?_
    rw [mem_addToRow, hr, Named, and_iff_left hcreated]
  | updateRuleIDMatcher ruleID receiverNames =>
    have hmap : (links.rows.map (removeFromRow ruleID)).map (addToRow ruleID receiverNames) =
        links.rows.map fun row => addToRow ruleID receiverNames (removeFromRow ruleID row) :=
      List.map_map
    rw [RuleLinks.after, hmap]
    refine h.edit _ (fun n => Iff.rfl) (fun n => Iff.rfl)
      (fun row => addToRow_fst ruleID receiverNames _)
      (fun row hrow => nodup_addToRow ruleID receiverNames (hrow.erase ruleID))
      fun row hcreated hids r hr => ?_
    rw [mem_addToRow, removeFromRow, hids.mem_erase_iff, hr, Named, and_iff_left hcreated,
      ne_comm]
  | deleteRuleIDMatcher ruleID =>
    refine h.edit (removeFromRow ruleID) (fun n => Iff.rfl) (fun n => Iff.rfl) (fun row => rfl)
      (fun row hrow => hrow.erase ruleID) fun row _ hids r hr => ?_
    rw [removeFromRow, hids.mem_erase_iff, hr, Named, ne_comm]

/-- What a matcher call for one rule leaves of another. -/
theorem filter_edited {f : String × List String → String × List String}
    (hfst : ∀ row, (f row).1 = row.1) {r : String}
    (hids : ∀ row : String × List String, r ∈ (f row).2 ↔ r ∈ row.2)
    (rows : List (String × List String)) :
    ((rows.map f).filter fun row => (noRuleID :: row.2).contains r).map Prod.fst =
      (rows.filter fun row => (noRuleID :: row.2).contains r).map Prod.fst := by
  rw [List.filter_map, List.map_map]
  have hsame : ((fun row : String × List String => (noRuleID :: row.2).contains r) ∘ f) =
      fun row => (noRuleID :: row.2).contains r := by
    funext row
    simp [Function.comp_apply, hids]
  rw [hsame]
  exact List.map_congr_left fun row _ => hfst row

theorem LinksOf.start : LinksOf ([] : List (ConfigCall B)) ⟨[defaultReceiverName], []⟩ where
  receivers := List.nodup_singleton _
  present := fun _ => List.mem_singleton
  rows := List.nodup_nil
  created := fun _ => ⟨fun h => absurd h List.not_mem_nil, False.elim⟩
  named := fun _ h => absurd h List.not_mem_nil
  ids := fun _ h => absurd h List.not_mem_nil

end History

/-! ## Runs -/

section Runs

variable {G B H : Type} {env : ConfigEnv G B H} {regexpMatches : String → String → Bool}
  {c : Config G B}

theorem Represents.start {globalConfig : G} {routeConfig : RouteConfig}
    (h : newDefaultConfig env globalConfig routeConfig = some c) :
    Represents ⟨[defaultReceiverName], []⟩ c := by
  rw [newDefaultConfig] at h
  split at h
  · cases h
    exact ⟨rfl, .nil⟩
  · cases h

/-- After calls whose rule ids can be told apart, a configuration has links that are what the calls
say. -/
theorem exists_links (hregexp : LiteralAlternations env.compiles regexpMatches) {globalConfig : G}
    {routeConfig : RouteConfig} (hstart : newDefaultConfig env globalConfig routeConfig = some c)
    (calls : List (ConfigCall B)) (hclean : ∀ call ∈ calls, call.IsClean) :
    ∃ links, Represents links (calls.foldl (Config.after env) c) ∧
      LinksOf calls.reverse links := by
  have hrun : ∀ (calls past : List (ConfigCall B)) (links : RuleLinks) (c : Config G B),
      (∀ call ∈ calls, call.IsClean) → Represents links c → LinksOf past links →
      ∃ links', Represents links' (calls.foldl (Config.after env) c) ∧
        LinksOf (calls.reverse ++ past) links' := by
    intro calls
    induction calls with
    | nil => exact fun past links c _ hc hpast => ⟨links, hc, hpast⟩
    | cons call calls ih =>
      intro past links c hclean hc hpast
      have hcall := hclean call List.mem_cons_self
      obtain ⟨links', hc', hpast'⟩ := ih (call :: past) (links.after call) (c.after env call)
        (fun other hother => hclean other (List.mem_cons_of_mem _ hother))
        (hc.after hregexp hcall) (hpast.after call)
      refine ⟨links', hc', ?_⟩
      rw [List.reverse_cons, List.append_assoc]
      exact hpast'
  obtain ⟨links, hc, hlinks⟩ := hrun calls [] _ c hclean (.start hstart) .start
  rw [List.append_nil] at hlinks
  exact ⟨links, hc, hlinks⟩

/-- A call about a rule leaves the receivers of the other rules as they are. -/
theorem Represents.receiverNames_of_other (hregexp : LiteralAlternations env.compiles regexpMatches)
    {links : RuleLinks} (h : Represents links c) {call : ConfigCall B} (hclean : call.IsClean)
    {r other : String} (habout : call.isAbout r) (hother : other ≠ r) :
    (c.after env call).receiverNamesFromRuleID regexpMatches other =
      c.receiverNamesFromRuleID regexpMatches other := by
  rw [(h.after hregexp hclean).receiverNames hregexp, h.receiverNames hregexp]
  have hadd : ∀ (receiverNames : List String) (row : String × List String),
      other ∈ (addToRow r receiverNames row).2 ↔ other ∈ row.2 := fun receiverNames row =>
    mem_addToRow.trans (or_iff_right fun heq => hother heq.1.symm)
  have hremove : ∀ row : String × List String, other ∈ (removeFromRow r row).2 ↔ other ∈ row.2 :=
    fun row => List.mem_erase_of_ne hother
  cases call with
  | createReceiver receiver => cases habout
  | deleteReceiver name => cases habout
  | createRuleIDMatcher ruleID receiverNames =>
    obtain rfl : ruleID = r := habout
    exact filter_edited (addToRow_fst ruleID receiverNames) (hadd receiverNames) links.rows
  | updateRuleIDMatcher ruleID receiverNames =>
    obtain rfl : ruleID = r := habout
    refine (filter_edited (addToRow_fst ruleID receiverNames) (hadd receiverNames) _).trans ?_
    exact @filter_edited (removeFromRow ruleID) (fun _ => rfl) other hremove links.rows
  | deleteRuleIDMatcher ruleID =>
    obtain rfl : ruleID = r := habout
    exact @filter_edited (removeFromRow ruleID) (fun _ => rfl) other hremove links.rows

variable (env regexpMatches) in
/-- The routes of a configuration relate rules and receivers as the calls before say, the latest
first. -/
structure RelatesRules (past : List (ConfigCall B)) (c : Config G B) : Prop where
  lists : ∀ r, r ≠ noRuleID → ∀ n,
    n ∈ c.receiverNamesFromRuleID regexpMatches r ↔ Created n past ∧ Named r n past
  once : ∀ r, (c.receiverNamesFromRuleID regexpMatches r).Nodup
  routes : ∀ route ∈ c.routes, ∀ r, r ≠ noRuleID →
    matcherContainsRuleID regexpMatches route.matchers r = true →
    ∃ call ∈ past, call.adds r route.receiver
  others : ∀ call : ConfigCall B, call.IsClean → ∀ r, call.isAbout r → ∀ other, other ≠ r →
    (c.after env call).receiverNamesFromRuleID regexpMatches other =
      c.receiverNamesFromRuleID regexpMatches other

/-- After every sequence of calls, starting from a default configuration. -/
theorem runs_relate_rules (env : ConfigEnv G B H) (regexpMatches : String → String → Bool)
    (hregexp : LiteralAlternations env.compiles regexpMatches) (globalConfig : G)
    (routeConfig : RouteConfig) (c : Config G B)
    (hstart : newDefaultConfig env globalConfig routeConfig = some c)
    (calls : List (ConfigCall B)) (hclean : ∀ call ∈ calls, call.IsClean) :
    RelatesRules env regexpMatches calls.reverse (calls.foldl (Config.after env) c) := by
  obtain ⟨links, hc, hlinks⟩ := exists_links hregexp hstart calls hclean
  have hmem : ∀ r, r ≠ noRuleID → ∀ n,
      n ∈ (calls.foldl (Config.after env) c).receiverNamesFromRuleID regexpMatches r ↔
        Created n calls.reverse ∧ Named r n calls.reverse := by
    intro r hr n
    rw [hc.receiverNames hregexp, List.mem_map]
    constructor
    · rintro ⟨row, hrow, rfl⟩
      obtain ⟨hold, hids⟩ := List.mem_filter.1 hrow
      have hin : r ∈ row.2 := by simpa [hr] using hids
      have hnamed := (hlinks.named row hold r).1 hin
      exact ⟨hnamed.created, hnamed⟩
    · rintro ⟨hcreated, hnamed⟩
      obtain ⟨row, hrow, rfl⟩ := List.mem_map.1 ((hlinks.created n).2 hcreated)
      refine ⟨row, List.mem_filter.2 ⟨hrow, ?_⟩, rfl⟩
      have hin := (hlinks.named row hrow r).2 hnamed
      simpa using Or.inr hin
  refine ⟨hmem, fun r => ?_, fun route hroute r hr hmatches => ?_, ?_⟩
  · rw [hc.receiverNames hregexp]
    exact hlinks.rows.sublist (List.filter_sublist.map _)
  · have hlisted : route.receiver ∈
        (calls.foldl (Config.after env) c).receiverNamesFromRuleID regexpMatches r :=
      List.mem_map_of_mem (List.mem_filter.2 ⟨hroute, hmatches⟩)
    exact ((hmem r hr route.receiver).1 hlisted).2.exists_adds
  · exact fun call hcall r habout other hother =>
      hc.receiverNames_of_other hregexp hcall habout hother

end Runs

/-! ## The default receiver -/

/-- Alternations of literal texts, as package `regexp` matches them. -/
def matchesAlternative (value s : String) : Bool :=
  (value.splitOn ruleIDMatcherValueSep).contains s

theorem matchesAlternative_literal :
    LiteralAlternations plainConfigEnv.compiles matchesAlternative where
  compiles := fun _ _ _ => rfl
  regexpMatches := fun texts hne hliteral s => by
    have hsplit := splitOn_intercalate '|' hne fun t ht => (hliteral t ht).not_sep
    exact congrArg (fun parts => List.contains parts s) hsplit

def freshCalls : List (ConfigCall String) :=
  [.createReceiver webhook, .createReceiver ⟨"pager", "https://hooks.local/pager"⟩,
    .createRuleIDMatcher "rule-1" ["ops", "pager"], .updateRuleIDMatcher "rule-1" ["pager"]]

/-- Two receivers, and a rule that is moved to one of them. -/
theorem fresh_calls_relate_rules :
    RelatesRules plainConfigEnv matchesAlternative freshCalls.reverse
      (freshCalls.foldl (Config.after plainConfigEnv) freshConfig) := by
  refine runs_relate_rules plainConfigEnv matchesAlternative matchesAlternative_literal ()
    plainSettings.route freshConfig rfl freshCalls fun call hcall r habout => ?_
  have hrule : IsRuleID "rule-1" := ⟨by decide, by decide⟩
  simp only [freshCalls, List.mem_cons, List.not_mem_nil, or_false] at hcall
  rcases hcall with rfl | rfl | rfl | rfl
  · cases habout
  · cases habout
  · exact habout ▸ hrule
  · exact habout ▸ hrule

def nameDefaultReceiver : ConfigCall String :=
  .createRuleIDMatcher "rule-1" [defaultReceiverName]

/-- The default receiver is present and named by a call, and is not listed: it has no route of its
own. -/
theorem default_receiver_is_not_listed :
    newDefaultConfig plainConfigEnv () plainSettings.route = some freshConfig ∧
    defaultReceiverName ∈ freshConfig.receivers.map Receiver.name ∧
    defaultReceiverName ∈
      (freshConfig.after plainConfigEnv nameDefaultReceiver).receivers.map Receiver.name ∧
    defaultReceiverName ∉
      (freshConfig.after plainConfigEnv nameDefaultReceiver).receiverNamesFromRuleID
        matchesAlternative "rule-1" :=
  ⟨rfl, List.mem_singleton.2 rfl, List.mem_singleton.2 rfl, List.not_mem_nil⟩

end Signoz.Alertmanager
