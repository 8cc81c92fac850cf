import Signoz.Alertmanager.Dispatcher
import Signoz.Alertmanager.Service
import Signoz.Lib.KeyedFold

/-!
# Test alerts

`TestAlert` of `alertmanagerserver/server.go`, with `NewAlertsFromPostableAlerts` of `alert.go`,
`TestReceiver` of `receiver.go` and `TestAlert` of `signozalertmanager/provider.go`.

The map from alerts to receivers is keyed by pointers; here it is the list of its entries in the
order of iteration. Each group and each of its receivers has a goroutine of its own, and what they
send is listed in some order. Conversion from the API's alerts, `Validate` and the integrations are
code outside the repository: `TestEnv`.
-/

namespace Signoz.Alertmanager

open Lib.KeyedFold

/-! ## Alerts -/

/-- `PostableAlert`; 0 is the zero time. -/
structure PostableAlert where
  labels : LabelSet
  startsAt : Int
  endsAt : Int

/-- One alert of `NewAlertsFromPostableAlerts`, before it is validated. -/
def newAlert (resolveTimeout now : Int) (p : PostableAlert) : Alert where
  labels := p.labels.filter fun l => l.2 ≠ ""
  startsAt := if p.startsAt = 0 then (if p.endsAt = 0 then now else p.endsAt) else p.startsAt
  endsAt := if p.endsAt = 0 then now + resolveTimeout else p.endsAt
  updatedAt := now

/-- `NewAlertsFromPostableAlerts`: the valid alerts and the errors of the others. -/
def newAlertsFromPostableAlerts (validate : Alert → Option String) (resolveTimeout now : Int)
    (postableAlerts : List PostableAlert) : List Alert × List String :=
  let alerts := postableAlerts.map (newAlert resolveTimeout now)
  (alerts.filter fun a => (validate a).isNone, alerts.filterMap validate)

/-! ## Receivers -/

/-- What one call of `Notify` is given. -/
structure Notification (B : Type) where
  receiver : Receiver B
  groupLabels : LabelSet
  alerts : List Alert

inductive TestError where
  | noAlerts
  | invalidAlerts (errs : List String)
  | noReceiver (name : String)
  | testFailed (name : String)

/-- What comes from upstream. -/
structure TestEnv (B : Type) where
  validate : Alert → Option String
  /-- `NewReceiverIntegrations` gives at least one integration. -/
  integrations : Receiver B → Bool
  /-- `Notify` of the first integration returns no error. -/
  notify : Notification B → Bool

section Server

variable {G B H : Type} (env : ConfigEnv G B H) (testEnv : TestEnv B)

/-- `CopyWithReset`. -/
def Config.copyWithReset (c : Config G B) : Option (Config G B) :=
  newDefaultConfig env c.global c.route

/-- `GetReceiver`. -/
def Config.getReceiver (c : Config G B) (name : String) : Option (Receiver B) :=
  c.receivers.find? fun r => r.name = name

/-- `TestReceiver`, up to the call of `Notify`. -/
def testReceiver (config : Config G B) (receiver : Receiver B) (lSet : LabelSet)
    (alerts : List Alert) : Option (Notification B) :=
  (config.copyWithReset env).bind fun testConfig =>
    (testConfig.createReceiver env receiver).bind fun testConfig =>
      (testConfig.getReceiver receiver.name).bind fun receiver =>
        if testEnv.integrations receiver then some ⟨receiver, lSet, alerts⟩ else none

/-! ## The server -/

/-- `alertGroup`. -/
structure AlertGroup where
  groupLabels : LabelSet
  alerts : List Alert
  receivers : List String

/-- A set of names with the given ones. -/
def addNames (receivers names : List String) : List String :=
  names.foldl (fun receivers r => receivers.insert r) receivers

/-- The group that an alert makes. -/
def newAlertGroup (config : NotificationConfig) (entry : Alert × List String) : AlertGroup where
  groupLabels := getGroupLabels entry.1 config.notificationGroup config.groupByAll
  alerts := [entry.1]
  receivers := addNames [] entry.2

/-- An alert joins a group. -/
def AlertGroup.add (group : AlertGroup) (entry : Alert × List String) : AlertGroup :=
  { group with
    alerts := group.alerts ++ [entry.1]
    receivers := addNames group.receivers entry.2 }

variable (fingerprint : LabelSet → Fingerprint)

/-- The key of an alert in `groupMap`. -/
def groupFingerprint (config : NotificationConfig) (alert : Alert) : Fingerprint :=
  fingerprint (getGroupLabels alert config.notificationGroup config.groupByAll)

/-- The first loop of `TestAlert`. -/
def groupMap (config : NotificationConfig) (entries : List (Alert × List String)) :
    List (Fingerprint × AlertGroup) :=
  accumulate (newAlertGroup config) AlertGroup.add []
    (entries.map fun e => (groupFingerprint fingerprint config e.1, e))

/-- What the goroutine of a group and a receiver sends. -/
def AlertGroup.send (c : Config G B) (group : AlertGroup) (receiverName : String) :
    Option (Notification B) :=
  (c.getReceiver receiverName).bind fun receiver =>
    testReceiver env testEnv c receiver group.groupLabels group.alerts

/-- The error of the goroutine of a group and a receiver. -/
def AlertGroup.sendError (c : Config G B) (group : AlertGroup) (receiverName : String) :
    Option TestError :=
  match c.getReceiver receiverName with
  | none => some (.noReceiver receiverName)
  | some receiver =>
    match testReceiver env testEnv c receiver group.groupLabels group.alerts with
    | none => some (.testFailed receiverName)
    | some notification =>
      if testEnv.notify notification then none else some (.testFailed receiverName)

/-- What was sent, and the errors that `TestAlert` joins. -/
structure TestResult (B : Type) where
  sent : List (Notification B)
  errs : List TestError

/-- `TestAlert`. -/
def testAlert (c : Config G B) (resolveTimeout now : Int)
    (receiversMap : List (PostableAlert × List String)) (config : NotificationConfig) :
    TestResult B :=
  if receiversMap.isEmpty then ⟨[], [.noAlerts]⟩
  else
    let (alerts, errs) := newAlertsFromPostableAlerts testEnv.validate resolveTimeout now
      (receiversMap.map Prod.fst)
    if !errs.isEmpty then ⟨[], [.invalidAlerts errs]⟩
    else
      let groups := groupMap fingerprint config (alerts.zip (receiversMap.map Prod.snd))
      { sent := groups.flatMap fun g => g.2.receivers.filterMap (g.2.send env testEnv c)
        errs := groups.flatMap fun g => g.2.receivers.filterMap (g.2.sendError env testEnv c) }

/-! ## What a receiver should get -/

/-- The alerts that were sent to a receiver. -/
def alertsSentTo (sent : List (Notification B)) (r : String) : List Alert :=
  (sent.filter fun n => n.receiver.name = r).flatMap Notification.alerts

/-- The alerts whose own list has a receiver. -/
def ownAlerts (resolveTimeout now : Int) (receiversMap : List (PostableAlert × List String))
    (r : String) : List Alert :=
  (receiversMap.filter fun e => e.2.contains r).map fun e => newAlert resolveTimeout now e.1

/-- Each receiver gets its own alerts, each as often as it was given. -/
def ReachOwnReceivers (resolveTimeout now : Int)
    (receiversMap : List (PostableAlert × List String)) (sent : List (Notification B)) : Prop :=
  ∀ r, (alertsSentTo sent r).Perm (ownAlerts resolveTimeout now receiversMap r)

/-- A receiver of the configuration that passes the checks of `TestReceiver`. -/
def Testable (c : Config G B) (r : String) : Prop :=
  ∃ receiver, c.getReceiver r = some receiver ∧
    (testReceiver env testEnv c receiver [] []).isSome = true

/-- Alerts of one group have the same receivers. -/
def SameReceivers (config : NotificationConfig) (resolveTimeout now : Int)
    (receiversMap : List (PostableAlert × List String)) : Prop :=
  ∀ e ∈ receiversMap, ∀ e' ∈ receiversMap,
    groupFingerprint fingerprint config (newAlert resolveTimeout now e.1) =
      groupFingerprint fingerprint config (newAlert resolveTimeout now e'.1) →
    ∀ r ∈ e.2, r ∈ e'.2

/-! ## One call of `TestReceiver` -/

/-- The receiver that a test of a name uses, completed as its own configuration has it. -/
def testedReceiver (c : Config G B) (name : String) : Option (Receiver B) :=
  (c.getReceiver name).bind fun receiver =>
    (testReceiver env testEnv c receiver [] []).map Notification.receiver

variable {env testEnv} {fingerprint} {c : Config G B} {name : String} {receiver : Receiver B}

theorem getReceiver_name (h : c.getReceiver name = some receiver) : receiver.name = name := by
  have hname := List.find?_some h
  simpa using hname

/-- Only the receiver decides whether a test is sent. -/
theorem testReceiver_eq_map (c : Config G B) (receiver : Receiver B) (lSet : LabelSet)
    (alerts : List Alert) :
    testReceiver env testEnv c receiver lSet alerts =
      (testReceiver env testEnv c receiver [] []).map fun n => ⟨n.receiver, lSet, alerts⟩ := by
  unfold testReceiver
  cases c.copyWithReset env with
  | none => rfl
  | some testConfig =>
    cases h : testConfig.createReceiver env receiver with
    | none => simp [h]
    | some created =>
      cases hget : created.getReceiver receiver.name with
      | none => simp [h, hget]
      | some completed => by_cases hi : testEnv.integrations completed <;> simp [h, hget, hi]

theorem testReceiver_name {lSet : LabelSet} {alerts : List Alert} {n : Notification B}
    (h : testReceiver env testEnv c receiver lSet alerts = some n) :
    n.receiver.name = receiver.name := by
  simp only [testReceiver, Option.bind_eq_some_iff] at h
  obtain ⟨-, -, created, -, completed, hget, hsend⟩ := h
  split at hsend
  · cases hsend
    exact getReceiver_name hget
  · cases hsend

theorem AlertGroup.send_eq_map (c : Config G B) (group : AlertGroup) (name : String) :
    group.send env testEnv c name =
      (testedReceiver env testEnv c name).map fun receiver =>
        ⟨receiver, group.groupLabels, group.alerts⟩ := by
  unfold AlertGroup.send testedReceiver
  cases c.getReceiver name with
  | none => rfl
  | some receiver =>
    rw [Option.bind_some, Option.bind_some, testReceiver_eq_map, Option.map_map]
    rfl

theorem testedReceiver_name (h : testedReceiver env testEnv c name = some receiver) :
   receiver.name = name := by
  simp only [testedReceiver, Option.bind_eq_some_iff, Option.map_eq_some_iff] at h
  obtain ⟨found, hfound, n, hn, rfl⟩ := h
  exact (testReceiver_name hn).trans (getReceiver_name hfound)

theorem testable_iff :
    Testable env testEnv c name ↔ (testedReceiver env testEnv c name).isSome = true := by
  unfold Testable testedReceiver
  cases c.getReceiver name with
  | none => simp
  | some receiver => simp

/-! ## What a receiver gets -/

theorem alertsSentTo_cons (n : Notification B) (sent : List (Notification B)) (r : String) :
    alertsSentTo (n :: sent) r =
      (if n.receiver.name = r then n.alerts else []) ++ alertsSentTo sent r := by
  by_cases h : n.receiver.name = r <;> simp [alertsSentTo, h]

theorem alertsSentTo_flatMap {I : Type} (items : List I) (f : I → List (Notification B))
    (r : String) :
    alertsSentTo (items.flatMap f) r = items.flatMap fun i => alertsSentTo (f i) r := by
  rw [alertsSentTo, List.filter_flatMap, List.flatMap_assoc]
  rfl

/-- The goroutines of a group give each of its receivers the alerts of the group once. -/
theorem alertsSentTo_send (c : Config G B) (group : AlertGroup) (r : String) {names : List String}
    (hnodup : names.Nodup) :
    alertsSentTo (names.filterMap (group.send env testEnv c)) r =
      if r ∈ names ∧ (testedReceiver env testEnv c r).isSome = true then group.alerts else [] := by
  induction names with
  | nil => rfl
  | cons name names ih =>
    obtain ⟨hnotMem, hnodup⟩ := List.nodup_cons.1 hnodup
    have hrest := ih hnodup
    cases htested : testedReceiver env testEnv c name with
    | none =>
      have hsend : group.send env testEnv c name = none := by
        rw [AlertGroup.send_eq_map, htested, Option.map_none]
      rw [List.filterMap_cons_none hsend, hrest]
      by_cases hr : r = name
      · subst hr
        simp [htested]
      · simp [hr]
    | some receiver =>
      have hsend : group.send env testEnv c name =
          some ⟨receiver, group.groupLabels, group.alerts⟩ := by
        rw [AlertGroup.send_eq_map, htested, Option.map_some]
      rw [List.filterMap_cons_some hsend, alertsSentTo_cons, hrest,
        testedReceiver_name htested]
      by_cases hr : name = r
      · subst hr
        simp [htested, hnotMem]
      · simp [hr, Ne.symm hr]

/-! ## Groups -/

theorem mem_addNames {receivers names : List String} {r : String} :
    r ∈ addNames receivers names ↔ r ∈ receivers ∨ r ∈ names := by
  induction names generalizing receivers with
  | nil => simp [addNames]
  | cons name names ih =>
    have hstep : addNames receivers (name :: names) =
        addNames (receivers.insert name) names := rfl
    rw [hstep, ih, List.mem_insert_iff, List.mem_cons]
    tauto

theorem nodup_addNames {receivers names : List String} (h : receivers.Nodup) :
    (addNames receivers names).Nodup := by
  induction names generalizing receivers with
  | nil => exact h
  | cons name names ih => exact ih h.insert

/-- What holds of a group after some alerts have joined it. -/
structure GroupOf (entries : List (Alert × List String)) (group : AlertGroup) : Prop where
  alerts : group.alerts = entries.map Prod.fst
  nodup : group.receivers.Nodup
  receivers : ∀ r, r ∈ group.receivers ↔ ∃ e ∈ entries, r ∈ e.2

theorem GroupOf.new (config : NotificationConfig) (e : Alert × List String) :
    GroupOf [e] (newAlertGroup config e) where
  alerts := rfl
  nodup := nodup_addNames List.nodup_nil
  receivers := fun r => by simp [newAlertGroup, mem_addNames]

theorem GroupOf.add {entries : List (Alert × List String)} {group : AlertGroup}
    (h : GroupOf entries group) (e : Alert × List String) :
    GroupOf (entries ++ [e]) (group.add e) where
  alerts := by simp [AlertGroup.add, h.alerts]
  nodup := nodup_addNames h.nodup
  receivers := fun r => by
    simp only [AlertGroup.add, mem_addNames, h.receivers, List.mem_append, List.mem_singleton]
    constructor
    · rintro (⟨e', he', hr⟩ | hr)
      · exact ⟨e', Or.inl he', hr⟩
      · exact ⟨e, Or.inr rfl, hr⟩
    · rintro ⟨e', he' | rfl, hr⟩
      · exact Or.inl ⟨e', he', hr⟩
      · exact Or.inr hr

theorem GroupOf.foldl {entries : List (Alert × List String)} {group : AlertGroup}
    (h : GroupOf entries group) (more : List (Alert × List String)) :
    GroupOf (entries ++ more) (more.foldl AlertGroup.add group) := by
  induction more generalizing entries group with
  | nil => rwa [List.append_nil]
  | cons e more ih =>
    have hrest := ih (h.add e)
    rwa [List.append_assoc] at hrest

section GroupMap

variable {config : NotificationConfig} {entries : List (Alert × List String)}

variable (fingerprint config entries) in
/-- The alerts of one group, with their receivers. -/
def entriesOf (k : Fingerprint) : List (Alert × List String) :=
  entries.filter fun e => groupFingerprint fingerprint config e.1 = k

theorem nodup_keys_groupMap :
    ((groupMap fingerprint config entries).map Prod.fst).Nodup :=
  nodup_keys_accumulate _ _ _ List.nodup_nil

theorem mem_keys_groupMap {e : Alert × List String} (he : e ∈ entries) :
    groupFingerprint fingerprint config e.1 ∈
      (groupMap fingerprint config entries).map Prod.fst := by
  refine (mem_keys_accumulate _ _ _ _ _).2 (Or.inr ?_)
  rw [List.map_map]
  exact List.mem_map.2 ⟨e, he, rfl⟩

/-- A group of the map is made of the alerts with its fingerprint. -/
theorem groupOf_of_mem {k : Fingerprint} {group : AlertGroup}
    (h : (k, group) ∈ groupMap fingerprint config entries) :
    GroupOf (entriesOf fingerprint config entries k) group := by
  have hlookup := (mem_iff_lookup nodup_keys_groupMap).1 h
  rw [groupMap, lookup_accumulate, itemsOf_map, List.map_id', List.lookup_nil] at hlookup
  change foldItems _ _ none (entriesOf fingerprint config entries k) = some group at hlookup
  cases hentries : entriesOf fingerprint config entries k with
  | nil =>
    rw [hentries] at hlookup
    cases hlookup
  | cons e more =>
    rw [hentries, foldItems_none_cons] at hlookup
    cases hlookup
    exact (GroupOf.new config e).foldl more

variable (fingerprint config entries) in
/-- Some alert of the group of this one goes to the receiver. -/
def groupHas (r : String) (e : Alert × List String) : Bool :=
  (entriesOf fingerprint config entries (groupFingerprint fingerprint config e.1)).any fun e' =>
    e'.2.contains r

/-- Within one group either every alert counts or none. -/
theorem filter_groupHas (r : String) (k : Fingerprint) :
    (entriesOf fingerprint config entries k).filter (groupHas fingerprint config entries r) =
      if ∃ e ∈ entriesOf fingerprint config entries k, r ∈ e.2 then
        entriesOf fingerprint config entries k
      else [] := by
  have hkey : ∀ e ∈ entriesOf fingerprint config entries k,
      groupFingerprint fingerprint config e.1 = k := by
    intro e he
    simpa using (List.mem_filter.1 he).2
  split
  · rename_i hex
    obtain ⟨e', he', hr⟩ := hex
    refine List.filter_eq_self.2 fun e he => ?_
    rw [groupHas, hkey e he]
    exact List.any_eq_true.2 ⟨e', he', by simpa using hr⟩
  · rename_i hnone
    refine List.filter_eq_nil_iff.2 fun e he hhas => ?_
    rw [groupHas, hkey e he] at hhas
    obtain ⟨e', he', hr⟩ := List.any_eq_true.1 hhas
    exact hnone ⟨e', he', by simpa using hr⟩

variable {c : Config G B} {r : String}

/-- A receiver that can be tested gets the alerts of every group that has it. -/
theorem alertsSentTo_groupMap (htested : (testedReceiver env testEnv c r).isSome = true) :
    (alertsSentTo ((groupMap fingerprint config entries).flatMap fun g =>
        g.2.receivers.filterMap (g.2.send env testEnv c)) r).Perm
      ((entries.filter (groupHas fingerprint config entries r)).map Prod.fst) := by
  let keyed := (entries.filter (groupHas fingerprint config entries r)).map fun e =>
    (groupFingerprint fingerprint config e.1, e.1)
  have hgroup : ∀ g ∈ groupMap fingerprint config entries,
      alertsSentTo (g.2.receivers.filterMap (g.2.send env testEnv c)) r = itemsOf g.1 keyed := by
    intro g hg
    have hof := groupOf_of_mem hg
    rw [alertsSentTo_send c g.2 r hof.nodup, hof.alerts]
    have hkeyed : itemsOf g.1 keyed = ((entriesOf fingerprint config entries g.1).filter
        (groupHas fingerprint config entries r)).map Prod.fst := by
      rw [itemsOf_map, List.filter_comm]
      rfl
    rw [hkeyed, filter_groupHas]
    simp only [htested, and_true, hof.receivers]
    split <;> rfl
  rw [alertsSentTo_flatMap, List.flatMap_congr hgroup,
    ← List.flatMap_map Prod.fst (itemsOf · keyed)]
  have hkeys : ∀ p ∈ keyed, p.1 ∈ (groupMap fingerprint config entries).map Prod.fst := by
    intro p hp
    obtain ⟨e, he, rfl⟩ := List.mem_map.1 hp
    exact mem_keys_groupMap (List.mem_filter.1 he).1
  refine (perm_flatMap_itemsOf nodup_keys_groupMap hkeys).trans (List.Perm.of_eq ?_)
  rw [List.map_map]
  rfl

/-- A receiver that cannot be tested gets nothing. -/
theorem alertsSentTo_untested (htested : ¬ (testedReceiver env testEnv c r).isSome = true) :
    alertsSentTo ((groupMap fingerprint config entries).flatMap fun g =>
      g.2.receivers.filterMap (g.2.send env testEnv c)) r = [] := by
  rw [alertsSentTo_flatMap]
  refine List.flatMap_eq_nil_iff.2 fun g hg => ?_
  rw [alertsSentTo_send c g.2 r (groupOf_of_mem hg).nodup, if_neg fun h => htested h.2]

theorem groupHas_of_mem {e : Alert × List String} (he : e ∈ entries) (hr : r ∈ e.2) :
   groupHas fingerprint config entries r e = true := by
  refine List.any_eq_true.2 ⟨e, List.mem_filter.2 ⟨he, ?_⟩, by simpa using hr⟩
  exact decide_eq_true rfl

/-- A receiver that can be tested gets its own alerts exactly when each group that has it has it
for all of its alerts. -/
theorem own_perm_iff (htested : (testedReceiver env testEnv c r).isSome = true) :
    (alertsSentTo ((groupMap fingerprint config entries).flatMap fun g =>
        g.2.receivers.filterMap (g.2.send env testEnv c)) r).Perm
      ((entries.filter fun e => e.2.contains r).map Prod.fst) ↔
      ∀ e ∈ entries, groupHas fingerprint config entries r e = true → r ∈ e.2 := by
  have hsent : (alertsSentTo ((groupMap fingerprint config entries).flatMap fun g =>
      g.2.receivers.filterMap (g.2.send env testEnv c)) r).Perm
        ((entries.filter (groupHas fingerprint config entries r)).map Prod.fst) :=
    alertsSentTo_groupMap htested
  have hsub : (entries.filter fun e => e.2.contains r).Sublist
      (entries.filter (groupHas fingerprint config entries r)) := by
    have hboth : ((entries.filter (groupHas fingerprint config entries r)).filter fun e =>
        e.2.contains r) = entries.filter fun e => e.2.contains r := by
      rw [List.filter_filter]
      refine List.filter_congr fun e he => Bool.eq_iff_iff.2 ?_
      rw [Bool.and_eq_true]
      exact ⟨And.left, fun hr => ⟨hr, groupHas_of_mem he (by simpa using hr)⟩⟩
    rw [← hboth]
    exact List.filter_sublist
  constructor
  · intro hperm e he hhas
    -- the two filters are of one length, so the smaller is the larger
    have hlength := (hperm.symm.trans hsent).length_eq
    rw [List.length_map, List.length_map] at hlength
    have heq := hsub.eq_of_length hlength
    have hmem := List.mem_filter.2 ⟨he, hhas⟩
    rw [← heq] at hmem
    simpa using (List.mem_filter.1 hmem).2
  · intro hall
    have heq : entries.filter (fun e => e.2.contains r) =
        entries.filter (groupHas fingerprint config entries r) := by
      refine List.filter_congr fun e he => Bool.eq_iff_iff.2 ⟨fun hr => ?_, fun hhas => ?_⟩
      · exact groupHas_of_mem he (by simpa using hr)
      · simpa using hall e he hhas
    rw [heq]
    exact hsent

end GroupMap

/-! ## Receivers and groups -/

/-- What `TestAlert` sends when every alert is valid. -/
theorem sent_eq_groupMap (c : Config G B) (resolveTimeout now : Int)
    (receiversMap : List (PostableAlert × List String)) (config : NotificationConfig)
    (hvalid : ∀ e ∈ receiversMap, testEnv.validate (newAlert resolveTimeout now e.1) = none) :
    (testAlert env testEnv fingerprint c resolveTimeout now receiversMap config).sent =
      (groupMap fingerprint config
        (receiversMap.map fun e => (newAlert resolveTimeout now e.1, e.2))).flatMap fun g =>
          g.2.receivers.filterMap (g.2.send env testEnv c) := by
  have hnew : newAlertsFromPostableAlerts testEnv.validate resolveTimeout now
      (receiversMap.map Prod.fst) =
        (receiversMap.map fun e => newAlert resolveTimeout now e.1, []) := by
    simp only [newAlertsFromPostableAlerts, List.map_map, Prod.mk.injEq, List.filterMap_eq_nil_iff,
      List.mem_map, Function.comp_apply]
    refine ⟨List.filter_eq_self.2 ?_, ?_⟩
    · intro a ha
      obtain ⟨e, he, rfl⟩ := List.mem_map.1 ha
      exact Option.isNone_iff_eq_none.2 (hvalid e he)
    · rintro a ⟨e, he, rfl⟩
      exact hvalid e he
  have hzip : ((receiversMap.map fun e => newAlert resolveTimeout now e.1).zip
      (receiversMap.map Prod.snd)) =
        receiversMap.map fun e => (newAlert resolveTimeout now e.1, e.2) := List.zip_map'
  cases receiversMap with
  | nil => rfl
  | cons e rest => simp only [testAlert, List.isEmpty_cons, hnew, hzip, List.isEmpty_nil,
      Bool.not_true, Bool.false_eq_true, if_false]

/-- Every receiver gets exactly its own alerts if and only if every receiver that is named can be
tested and alerts of one group have the same receivers. -/
theorem reachOwnReceivers_iff (env : ConfigEnv G B H) (testEnv : TestEnv B)
    (fingerprint : LabelSet → Fingerprint) (c : Config G B) (resolveTimeout now : Int)
    (receiversMap : List (PostableAlert × List String)) (config : NotificationConfig)
    (hvalid : ∀ e ∈ receiversMap, testEnv.validate (newAlert resolveTimeout now e.1) = none) :
    ReachOwnReceivers resolveTimeout now receiversMap
        (testAlert env testEnv fingerprint c resolveTimeout now receiversMap config).sent ↔
      (∀ e ∈ receiversMap, ∀ r ∈ e.2, Testable env testEnv c r) ∧
        SameReceivers fingerprint config resolveTimeout now receiversMap := by
  let entries := receiversMap.map fun e => (newAlert resolveTimeout now e.1, e.2)
  have hentry : ∀ {e}, e ∈ receiversMap → (newAlert resolveTimeout now e.1, e.2) ∈ entries :=
    fun he => List.mem_map.2 ⟨_, he, rfl⟩
  have hown : ∀ r, ownAlerts resolveTimeout now receiversMap r =
      (entries.filter fun e => e.2.contains r).map Prod.fst := by
    intro r
    rw [List.filter_map, List.map_map]
    rfl
  rw [sent_eq_groupMap c resolveTimeout now receiversMap config hvalid]
  constructor
  · intro hreach
    have htestable : ∀ e ∈ receiversMap, ∀ r ∈ e.2, Testable env testEnv c r := by
      intro e he r hr
      by_contra htested
      -- nothing is sent to the receiver, which has an alert of its own
      have hperm := hreach r
      rw [alertsSentTo_untested fun h => htested (testable_iff.2 h)] at hperm
      have hmem : newAlert resolveTimeout now e.1 ∈ ownAlerts resolveTimeout now receiversMap r :=
        List.mem_map.2 ⟨e, List.mem_filter.2 ⟨he, by simpa using hr⟩, rfl⟩
      rw [List.nil_perm.1 hperm] at hmem
      exact List.not_mem_nil hmem
    refine ⟨htestable, fun e he e' he' hkey r hr => ?_⟩
    have hperm := hreach r
    rw [hown r] at hperm
    refine (own_perm_iff (testable_iff.1 (htestable e he r hr))).1 hperm _ (hentry he') ?_
    refine List.any_eq_true.2 ⟨_, List.mem_filter.2 ⟨hentry he, ?_⟩, by simpa using hr⟩
    exact decide_eq_true hkey
  · rintro ⟨htestable, hsame⟩ r
    rw [hown r]
    by_cases htested : (testedReceiver env testEnv c r).isSome = true
    · refine (own_perm_iff htested).2 fun e he hhas => ?_
      obtain ⟨p, hp, rfl⟩ := List.mem_map.1 he
      obtain ⟨e', he', hr⟩ := List.any_eq_true.1 hhas
      obtain ⟨hmem, hkey⟩ := List.mem_filter.1 he'
      obtain ⟨p', hp', rfl⟩ := List.mem_map.1 hmem
      exact hsame p' hp' p hp (of_decide_eq_true hkey) r (by simpa using hr)
    · have hnone : (entries.filter fun e => e.2.contains r) = [] := by
        refine List.filter_eq_nil_iff.2 fun e he hr => ?_
        obtain ⟨p, hp, rfl⟩ := List.mem_map.1 he
        exact htested (testable_iff.1 (htestable p hp r (by simpa using hr)))
      rw [alertsSentTo_untested htested, hnone, List.map_nil]

end Server

/-! ## Two alerts in one group -/

/-- Two webhooks. -/
def twoWebhooks : Config Unit String where
  global := ()
  route := ⟨[], 1, 1, 1⟩
  routes := [⟨"receiver-1", true, [noRuleIDMatcher]⟩, ⟨"receiver-2", true, [noRuleIDMatcher]⟩]
  receivers := [⟨defaultReceiverName, ""⟩, ⟨"receiver-1", "webhook-1"⟩, ⟨"receiver-2", "webhook-2"⟩]
  inhibitRules := []

def plainTestEnv : TestEnv String where
  validate := fun a => if a.labels = [] then some "at least one label pair required" else none
  integrations := fun receiver => receiver.body ≠ ""
  notify := fun _ => true

def criticalAlert : PostableAlert :=
  ⟨[("alertname", "test-alert-1"), ("severity", "critical")], 5, 0⟩

def warningAlert : PostableAlert :=
  ⟨[("alertname", "test-alert-2"), ("severity", "warning")], 5, 0⟩

/-- Nothing to group by. -/
def ungrouped : NotificationConfig := ⟨[], hours 4, hours 4, false, false⟩

/-- The second alert is for the second receiver only; the first receiver gets it too. -/
theorem test_alert_reaches_other_receiver :
    (∀ e ∈ [(criticalAlert, ["receiver-1", "receiver-2"]), (warningAlert, ["receiver-2"])],
      plainTestEnv.validate (newAlert 300 10 e.1) = none ∧
        ∀ r ∈ e.2, (twoWebhooks.getReceiver r).isSome = true) ∧
    ¬ ReachOwnReceivers 300 10
      [(criticalAlert, ["receiver-1", "receiver-2"]), (warningAlert, ["receiver-2"])]
      (testAlert plainConfigEnv plainTestEnv sampleFingerprint twoWebhooks 300 10
        [(criticalAlert, ["receiver-1", "receiver-2"]), (warningAlert, ["receiver-2"])]
        ungrouped).sent := by
  refine ⟨by decide, fun hreach => ?_⟩
  have hlength := (hreach "receiver-1").length_eq
  revert hlength
  decide

def otherCriticalAlert : PostableAlert :=
  ⟨[("alertname", "test-alert-3"), ("severity", "critical")], 5, 0⟩

def bySeverity : NotificationConfig := ⟨["severity"], hours 4, hours 4, false, false⟩

/-- Two critical alerts for both receivers, and a warning for the second one. -/
def threeAlerts : List (PostableAlert × List String) :=
  [(criticalAlert, ["receiver-1", "receiver-2"]), (warningAlert, ["receiver-2"]),
    (otherCriticalAlert, ["receiver-1", "receiver-2"])]

/-- The critical alerts are a group of both receivers, and the warning is one of the second. -/
theorem severity_groups_reach_own :
    ReachOwnReceivers 300 10 threeAlerts
      (testAlert plainConfigEnv plainTestEnv sampleFingerprint twoWebhooks 300 10 threeAlerts
        bySeverity).sent := by
  have hfirst : Testable plainConfigEnv plainTestEnv twoWebhooks "receiver-1" :=
    ⟨⟨"receiver-1", "webhook-1"⟩, by decide, by decide⟩
  have hsecond : Testable plainConfigEnv plainTestEnv twoWebhooks "receiver-2" :=
    ⟨⟨"receiver-2", "webhook-2"⟩, by decide, by decide⟩
  refine (reachOwnReceivers_iff plainConfigEnv plainTestEnv sampleFingerprint twoWebhooks 300 10
    threeAlerts bySeverity (by decide)).2 ⟨?_, ?_⟩
  · have hknown : ∀ e ∈ threeAlerts, ∀ r ∈ e.2, r = "receiver-1" ∨ r = "receiver-2" := by decide
    intro e he r hr
    rcases hknown e he r hr with rfl | rfl
    · exact hfirst
    · exact hsecond
  · unfold SameReceivers
    decide

end Signoz.Alertmanager
