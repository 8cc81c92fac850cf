import Mathlib.Algebra.GroupWithZero.Nat
import Mathlib.Data.List.AList
import Signoz.Alertmanager.RoutePolicy
import Signoz.Lib.Runs

/-!
# The dispatcher

`dispatcher.go` of `alertmanagerserver`: `processAlert` puts an alert into the aggregation group of
its route and group labels, the goroutine of each group flushes it now and then, and
`doMaintenance` removes the groups that are empty.

`processAlert` and `doMaintenance` hold `mtx`. Of what `processAlert` does under it the other
goroutines see a single insertion, so it is one step; `doMaintenance` is one step for each test and
each removal, since groups go on flushing in between. A flush is two steps, before and after the
call of the notifier. Timers only say when a flush comes; here one may come at any time.

The store of the alerts of a group is code outside the repository, an `AlertStore`. `history` is no
part of the source: it holds the alerts that were processed and not refused, and the notifications
that succeeded.
-/

namespace Signoz.Alertmanager

/-! ## Alerts and their store -/

/-- `model.LabelSet`, with its entries in some order. -/
abbrev LabelSet := List (String × String)

abbrev Fingerprint := Nat

/-- `types.Alert`; a time is in nanoseconds, and 0 is the zero time. -/
structure Alert where
  labels : LabelSet
  startsAt : Int
  endsAt : Int
  updatedAt : Int
deriving DecidableEq

/-- `ResolvedAt`. -/
def Alert.resolvedAt (a : Alert) (now : Int) : Bool :=
  a.endsAt ≠ 0 && a.endsAt ≤ now

/-- `store.Alerts`: a map by the fingerprint of the labels, whose `DeleteIfNotModified` deletes
only entries equal to the given ones. -/
structure AlertStore (fingerprint : LabelSet → Fingerprint) where
  Alerts : Type
  newAlerts : Alerts
  get : Alerts → Fingerprint → Option Alert
  set : Alerts → Alert → Alerts
  list : Alerts → List Alert
  empty : Alerts → Bool
  deleteIfNotModified : Alerts → List Alert → Alerts
  get_new : ∀ fp, get newAlerts fp = none
  get_set_self : ∀ s a, get (set s a) (fingerprint a.labels) = some a
  get_set_of_ne : ∀ s a fp, fp ≠ fingerprint a.labels → get (set s a) fp = get s fp
  mem_list : ∀ s a, a ∈ list s ↔ get s (fingerprint a.labels) = some a
  empty_iff : ∀ s, empty s = true ↔ ∀ fp, get s fp = none
  get_delete : ∀ s given fp, get (deleteIfNotModified s given) fp = get s fp ∨
    (get (deleteIfNotModified s given) fp = none ∧ ∃ a ∈ given, get s fp = some a)

/-! ## Groups -/

/-- `dispatch.RouteOpts`, as far as the dispatcher sets it. -/
structure RouteOpts where
  receiver : String
  groupWait : Int
  groupInterval : Int
  repeatInterval : Int

/-- `deepCopyRouteOpts`. -/
def deepCopyRouteOpts (opts : RouteOpts) (renotify : Int) : RouteOpts :=
  if renotify > 0 then { opts with repeatInterval := renotify } else opts

/-- What a flush has handed to the notifier, and the alerts in it that it will delete. -/
structure Flush where
  alerts : List Alert
  resolvedSlice : List Alert
  reported : ∀ a ∈ resolvedSlice, a ∈ alerts ∧ a.endsAt ≠ 0

/-- `aggrGroup`; `flushing` is set while its notifier runs. -/
structure AggrGroup (Alerts : Type) where
  labels : LabelSet
  opts : RouteOpts
  alerts : Alerts
  flushing : Option Flush

/-- `NoDataLabel`. -/
def noDataLabel : String := "nodata"

/-- `NoDataAlert`. -/
def noDataAlert (alert : Alert) : Bool := alert.labels.any fun l => l.1 = noDataLabel

/-- `getGroupLabels`. -/
def getGroupLabels (alert : Alert) (groups : List String) (groupByAll : Bool) : LabelSet :=
  alert.labels.filter fun l => groups.contains l.1 || groupByAll

/-- `groupLabels[name] = value`. -/
def LabelSet.set (labels : LabelSet) (name value : String) : LabelSet :=
  labels.filter (fun l => l.1 ≠ name) ++ [(name, value)]

/-- The group labels and the interval of `processAlert`. -/
def groupOf (alert : Alert) (config : NotificationConfig) : LabelSet × Int :=
  let groupLabels := getGroupLabels alert config.notificationGroup config.groupByAll
  if noDataAlert alert then
    (groupLabels.set noDataLabel ((alert.labels.lookup noDataLabel).getD ""), config.noDataInterval)
  else (groupLabels, config.renotifyInterval)

/-! ## The dispatcher -/

section Dispatcher

/-- Who holds `mtx`, and the groups that `doMaintenance` has yet to look at. -/
inductive Holder (Key : Type) where
  | free
  | maintaining (todo : List Key)
  /-- At `ag.stop()` of an empty group. -/
  | stopping (key : Key) (todo : List Key)

/-- What has happened. -/
inductive Event (Route : Type) where
  | processed (route : Route) (groupLabels : LabelSet) (alert : Alert)
  | notified (route : Route) (fp : Fingerprint) (alerts : List Alert)

variable {Route : Type} {fingerprint : LabelSet → Fingerprint}

structure Dispatcher (Route Alerts : Type) [DecidableEq Route] where
  aggrGroupsPerRoute : AList fun _ : Route × Fingerprint => AggrGroup Alerts
  aggrGroupsNum : Int
  mtx : Holder (Route × Fingerprint)
  history : List (Event Route)

inductive DispatcherStep (Route : Type) where
  /-- `processAlert`, with what `GetNotificationConfig` answers. -/
  | processAlert (alert : Alert) (route : Route) (config : Option NotificationConfig)
  /-- `flush` of a group, up to the call of `notify`. -/
  | flush (key : Route × Fingerprint) (now : Int)
  /-- The rest of `flush`, with what `notify` returns. -/
  | notifyReturns (key : Route × Fingerprint) (ok : Bool)
  /-- `doMaintenance` takes `mtx`; it will visit the groups in this order. -/
  | doMaintenance (order : List (Route × Fingerprint))
  /-- The test of the next group. -/
  | visit
  /-- `ag.stop()` returns, and the group is deleted. -/
  | stopped
  /-- `doMaintenance` ends. -/
  | unlock

variable [DecidableEq Route]

/-- `Run`, before the first alert. -/
def initialDispatcher {Alerts : Type} : Dispatcher Route Alerts where
  aggrGroupsPerRoute := ∅
  aggrGroupsNum := 0
  mtx := .free
  history := []

variable (store : AlertStore fingerprint) (less : Alert → Alert → Bool)
variable (routeOpts : Route → RouteOpts) (maxNumberOfAggregationGroups : Int)

namespace Dispatcher

/-- `ag.insert(alert)` for a group of the dispatcher. -/
def insertInto (d : Dispatcher Route store.Alerts) (key : Route × Fingerprint)
    (ag : AggrGroup store.Alerts) (alert : Alert) : Dispatcher Route store.Alerts :=
  { d with
    aggrGroupsPerRoute :=
      d.aggrGroupsPerRoute.insert key { ag with alerts := store.set ag.alerts alert } }

/-- `processAlert`. -/
def processAlert (d : Dispatcher Route store.Alerts) (alert : Alert) (route : Route)
    (config : Option NotificationConfig) : Dispatcher Route store.Alerts :=
  match config with
  | none => d
  | some config =>
    let (groupLabels, renotifyInterval) := groupOf alert config
    let key := (route, fingerprint groupLabels)
    let processed := .processed route groupLabels alert :: d.history
    match d.aggrGroupsPerRoute.lookup key with
    | some ag => { d.insertInto store key ag alert with history := processed }
    | none =>
      if maxNumberOfAggregationGroups > 0 ∧
          d.aggrGroupsNum ≥ maxNumberOfAggregationGroups then d
      else
        let ag : AggrGroup store.Alerts :=
          { labels := groupLabels
            opts := deepCopyRouteOpts (routeOpts route) renotifyInterval
            alerts := store.newAlerts
            flushing := none }
        { d.insertInto store key ag alert with
          aggrGroupsNum := d.aggrGroupsNum + 1
          history := processed }

end Dispatcher

/-- The copies that a flush makes of the alerts: one that is not resolved has no end. -/
def flushCopy (now : Int) (alert : Alert) : Alert :=
  if alert.resolvedAt now then alert else { alert with endsAt := 0 }

/-- What `flush` hands to the notifier. -/
def beginFlush (now : Int) (alerts : List Alert) : Flush where
  alerts := (alerts.map (flushCopy now)).mergeSort less
  resolvedSlice := alerts.filter fun a => a.resolvedAt now
  reported := by
    intro a ha
    rw [List.mem_filter] at ha
    rw [List.mem_mergeSort, List.mem_map]
    refine ⟨⟨a, ha.1, if_pos ha.2⟩, ?_⟩
    have hend := ha.2
    simp only [Alert.resolvedAt, Bool.and_eq_true, decide_eq_true_eq] at hend
    exact hend.1

/-- `none` says that the step waits: for `mtx`, for the end of a flush, or for its turn. -/
def dispatcherStep (d : Dispatcher Route store.Alerts) :
    DispatcherStep Route → Option (Dispatcher Route store.Alerts)
  | .processAlert alert route config =>
    match d.mtx with
    | .free =>
      some (d.processAlert store routeOpts maxNumberOfAggregationGroups alert route config)
    | _ => none
  | .flush key now =>
    match d.aggrGroupsPerRoute.lookup key with
    | some ag =>
      if ag.flushing.isSome then none
      else if store.empty ag.alerts then some d
      else
        some { d with
          aggrGroupsPerRoute := d.aggrGroupsPerRoute.insert key
            { ag with flushing := some (beginFlush less now (store.list ag.alerts)) } }
    | none => none
  | .notifyReturns key ok =>
    match d.aggrGroupsPerRoute.lookup key with
    | some ag =>
      ag.flushing.map fun flush =>
        if ok then
          { d with
            aggrGroupsPerRoute := d.aggrGroupsPerRoute.insert key
              { ag with
                alerts := store.deleteIfNotModified ag.alerts flush.resolvedSlice
                flushing := none }
            history := .notified key.1 key.2 flush.alerts :: d.history }
        else
          { d with
            aggrGroupsPerRoute :=
              d.aggrGroupsPerRoute.insert key { ag with flushing := none } }
    | none => none
  | .doMaintenance order =>
    match d.mtx with
    | .free =>
      if order.Perm d.aggrGroupsPerRoute.keys then some { d with mtx := .maintaining order }
      else none
    | _ => none
  | .visit =>
    match d.mtx with
    | .maintaining (key :: todo) =>
      (d.aggrGroupsPerRoute.lookup key).map fun ag =>
        { d with
          mtx := if store.empty ag.alerts then .stopping key todo else .maintaining todo }
    | _ => none
  | .stopped =>
    match d.mtx with
    | .stopping key todo =>
      match d.aggrGroupsPerRoute.lookup key with
      | some ag =>
        if ag.flushing.isSome then none
        else
          some { d with
            aggrGroupsPerRoute := d.aggrGroupsPerRoute.erase (key.1, fingerprint ag.labels)
            aggrGroupsNum := d.aggrGroupsNum - 1
            mtx := .maintaining todo }
      | none => none
    | _ => none
  | .unlock =>
    match d.mtx with
    | .maintaining [] => some { d with mtx := .free }
    | _ => none

/-! ## What one step can do -/

/-- The transitions, as far as the groups see them. -/
inductive DispatcherMove (d : Dispatcher Route store.Alerts) :
    Dispatcher Route store.Alerts → Prop
  /-- Only `mtx` changes; what is about to be removed is empty. -/
  | hold (mtx : Holder (Route × Fingerprint))
      (empty : ∀ key todo, mtx = .stopping key todo → d.mtx = mtx ∨
        ∃ ag, d.aggrGroupsPerRoute.lookup key = some ag ∧ store.empty ag.alerts = true) :
      DispatcherMove d { d with mtx := mtx }
  | insert (route : Route) (labels : LabelSet) (alert : Alert) (ag : AggrGroup store.Alerts)
      (here : d.aggrGroupsPerRoute.lookup (route, fingerprint labels) = some ag)
      (free : d.mtx = .free) :
      DispatcherMove d
        { d.insertInto store (route, fingerprint labels) ag alert with
          history := .processed route labels alert :: d.history }
  | create (route : Route) (labels : LabelSet) (alert : Alert) (ag : AggrGroup store.Alerts)
      (absent : d.aggrGroupsPerRoute.lookup (route, fingerprint labels) = none)
      (own : ag.labels = labels) (free : d.mtx = .free) :
      DispatcherMove d
        { d.insertInto store (route, fingerprint labels) ag alert with
          aggrGroupsNum := d.aggrGroupsNum + 1
          history := .processed route labels alert :: d.history }
  | flushing (key : Route × Fingerprint) (ag : AggrGroup store.Alerts) (flush : Option Flush)
      (here : d.aggrGroupsPerRoute.lookup key = some ag) :
      DispatcherMove d
        { d with
          aggrGroupsPerRoute := d.aggrGroupsPerRoute.insert key { ag with flushing := flush } }
  | notified (key : Route × Fingerprint) (ag : AggrGroup store.Alerts) (flush : Flush)
      (here : d.aggrGroupsPerRoute.lookup key = some ag) :
      DispatcherMove d
        { d with
          aggrGroupsPerRoute := d.aggrGroupsPerRoute.insert key
            { ag with
              alerts := store.deleteIfNotModified ag.alerts flush.resolvedSlice
              flushing := none }
          history := .notified key.1 key.2 flush.alerts :: d.history }
  | remove (key : Route × Fingerprint) (todo : List (Route × Fingerprint))
      (ag : AggrGroup store.Alerts) (stopping : d.mtx = .stopping key todo)
      (here : d.aggrGroupsPerRoute.lookup key = some ag) :
      DispatcherMove d
        { d with
          aggrGroupsPerRoute := d.aggrGroupsPerRoute.erase (key.1, fingerprint ag.labels)
          aggrGroupsNum := d.aggrGroupsNum - 1
          mtx := .maintaining todo }

section Steps

variable {store} {less : Alert → Alert → Bool} {routeOpts : Route → RouteOpts}
variable {maxNumberOfAggregationGroups : Int} {d t : Dispatcher Route store.Alerts}

theorem DispatcherMove.refl (d : Dispatcher Route store.Alerts) : DispatcherMove store d d :=
  .hold d.mtx fun _ _ _ => .inl rfl

theorem move_of_processAlert (alert : Alert) (route : Route) (config : Option NotificationConfig)
    (free : d.mtx = .free) :
    DispatcherMove store d
      (d.processAlert store routeOpts maxNumberOfAggregationGroups alert route config) := by
  unfold Dispatcher.processAlert
  cases config with
  | none => exact DispatcherMove.refl d
  | some config =>
    simp only
    split
    · rename_i ag hlookup
      exact .insert route (groupOf alert config).1 alert ag hlookup free
    · rename_i hlookup
      split
      · exact DispatcherMove.refl d
      · exact .create route (groupOf alert config).1 alert _ hlookup rfl free

theorem move_of_dispatcherStep {a : DispatcherStep Route}
    (h : dispatcherStep store less routeOpts maxNumberOfAggregationGroups d a = some t) :
    DispatcherMove store d t := by
  cases a with
  | processAlert alert route config =>
    simp only [dispatcherStep] at h
    split at h
    · rename_i hfree
      cases h
      exact move_of_processAlert alert route config hfree
    · cases h
  | flush key now =>
    simp only [dispatcherStep] at h
    split at h
    · rename_i ag hlookup
      split at h
      · cases h
      · split at h
        · cases h
          exact DispatcherMove.refl d
        · cases h
          exact .flushing key ag _ hlookup
    · cases h
  | notifyReturns key ok =>
    simp only [dispatcherStep] at h
    split at h
    · rename_i ag hlookup
      obtain ⟨flush, hflush, rfl⟩ := Option.map_eq_some_iff.1 h
      cases ok with
      | true => exact .notified key ag flush hlookup
      | false => exact .flushing key ag none hlookup
    · cases h
  | doMaintenance order =>
    simp only [dispatcherStep] at h
    split at h
    · split at h
      · cases h
        exact .hold (.maintaining order) fun _ _ heq => (nomatch heq)
      · cases h
    · cases h
  | visit =>
    simp only [dispatcherStep] at h
    split at h
    · rename_i key todo hmtx
      obtain ⟨ag, hlookup, rfl⟩ := Option.map_eq_some_iff.1 h
      apply DispatcherMove.hold
      intro key' todo' heq
      split at heq
      · rename_i hempty
        cases heq
        exact .inr ⟨ag, hlookup, hempty⟩
      · cases heq
    · cases h
  | stopped =>
    simp only [dispatcherStep] at h
    split at h
    · rename_i key todo hmtx
      split at h
      · rename_i ag hlookup
        split at h
        · cases h
        · cases h
          exact .remove key todo ag hmtx hlookup
      · cases h
    · cases h
  | unlock =>
    simp only [dispatcherStep] at h
    split at h
    · cases h
      exact .hold .free fun _ _ heq => (nomatch heq)
    · cases h

/-! ## What holds in every state -/

/-- The group of a route and of group labels has the alert. -/
def InGroup (d : Dispatcher Route store.Alerts) (route : Route) (labels : LabelSet)
    (alert : Alert) : Prop :=
  ∃ ag, d.aggrGroupsPerRoute.lookup (route, fingerprint labels) = some ag ∧
    store.get ag.alerts (fingerprint alert.labels) = some alert

/-- No flush of the group that reported the alert as resolved has succeeded since. -/
def Unreported (fingerprint : LabelSet → Fingerprint) (newer : List (Event Route)) (route : Route)
    (labels : LabelSet) (alert : Alert) : Prop :=
  ∀ alerts, .notified route (fingerprint labels) alerts ∈ newer → alert ∈ alerts →
    alert.endsAt = 0

/-- The alert has not been put into the group again since, with other contents. -/
def Newest (fingerprint : LabelSet → Fingerprint) (newer : List (Event Route)) (route : Route)
    (labels : LabelSet) (alert : Alert) : Prop :=
  ∀ labels' alert', .processed route labels' alert' ∈ newer →
    fingerprint labels' = fingerprint labels → fingerprint alert'.labels ≠ fingerprint alert.labels

structure LosesNoAlert (d : Dispatcher Route store.Alerts) : Prop where
  count : d.aggrGroupsNum = d.aggrGroupsPerRoute.keys.length
  keyed : ∀ key ag, d.aggrGroupsPerRoute.lookup key = some ag → fingerprint ag.labels = key.2
  kept : ∀ newer older route labels alert,
    d.history = newer ++ .processed route labels alert :: older →
      Newest fingerprint newer route labels alert → Unreported fingerprint newer route labels alert →
        InGroup d route labels alert

/-- A group that is about to be removed is empty. -/
def StopsEmpty (d : Dispatcher Route store.Alerts) : Prop :=
  ∀ key todo, d.mtx = .stopping key todo →
    ∃ ag, d.aggrGroupsPerRoute.lookup key = some ag ∧ store.empty ag.alerts = true

/-- Deleting from a store leaves it empty. -/
theorem empty_delete {alerts : store.Alerts} (given : List Alert)
    (h : store.empty alerts = true) : store.empty (store.deleteIfNotModified alerts given) = true := by
  rw [store.empty_iff] at h ⊢
  intro fp
  rcases store.get_delete alerts given fp with hsame | ⟨hnone, -⟩
  · rw [hsame]
    exact h fp
  · exact hnone

variable {route : Route} {labels : LabelSet} {alert : Alert} {key : Route × Fingerprint}

/-- A group may change as long as it keeps the alert. -/
theorem InGroup.of_insert (h : InGroup d route labels alert) {ag' : AggrGroup store.Alerts}
    (hgroups : t.aggrGroupsPerRoute = d.aggrGroupsPerRoute.insert key ag')
    (hkeep : ∀ ag, key = (route, fingerprint labels) → d.aggrGroupsPerRoute.lookup key = some ag →
      store.get ag.alerts (fingerprint alert.labels) = some alert →
        store.get ag'.alerts (fingerprint alert.labels) = some alert) :
    InGroup t route labels alert := by
  obtain ⟨ag, hlookup, hget⟩ := h
  by_cases hkey : key = (route, fingerprint labels)
  · refine ⟨ag', ?_, hkeep ag hkey (hkey ▸ hlookup) hget⟩
    rw [hgroups, hkey]
    exact AList.lookup_insert _
  · refine ⟨ag, ?_, hget⟩
    rw [hgroups, AList.lookup_insert_ne (Ne.symm hkey)]
    exact hlookup

/-- What was to be shown before an event, when the event came after the alert. -/
theorem LosesNoAlert.before (h : LosesNoAlert d) {e : Event Route}
    {newer older : List (Event Route)}
    (hhistory : d.history = newer ++ .processed route labels alert :: older)
    (hnewest : Newest fingerprint (e :: newer) route labels alert)
    (hunreported : Unreported fingerprint (e :: newer) route labels alert) :
    InGroup d route labels alert := by
  apply h.kept newer older route labels alert hhistory
  · exact fun labels' alert' hmem => hnewest labels' alert' (List.mem_cons_of_mem _ hmem)
  · exact fun alerts hmem => hunreported alerts (List.mem_cons_of_mem _ hmem)

variable {ag : AggrGroup store.Alerts}

theorem keyed_insert {groups : AList fun _ : Route × Fingerprint => AggrGroup store.Alerts}
    (h : ∀ key ag, groups.lookup key = some ag → fingerprint ag.labels = key.2)
    (hag : fingerprint ag.labels = key.2) :
    ∀ key' ag', (groups.insert key ag).lookup key' = some ag' →
      fingerprint ag'.labels = key'.2 := by
  intro key' ag' hlookup
  by_cases hkey : key' = key
  · subst hkey
    rw [AList.lookup_insert] at hlookup
    cases hlookup
    exact hag
  · rw [AList.lookup_insert_ne hkey] at hlookup
    exact h key' ag' hlookup

theorem length_insert_of_lookup {K V : Type} [DecidableEq K] {m : AList fun _ : K => V} {key : K}
    {v : V} (hlookup : m.lookup key = some v) (v' : V) :
    (m.insert key v').keys.length = m.keys.length := by
  have hmem : key ∈ m.keys := AList.mem_keys.1 (AList.lookup_isSome.1 (by simp [hlookup]))
  rw [AList.keys_insert, List.length_cons, List.length_erase_of_mem hmem]
  have hpos := List.length_pos_of_mem hmem
  omega

theorem length_insert_of_absent {K V : Type} [DecidableEq K] {m : AList fun _ : K => V} {key : K}
    (hlookup : m.lookup key = none) (v : V) :
    (m.insert key v).keys.length = m.keys.length + 1 := by
  have habsent : key ∉ m.keys := fun hmem =>
    AList.lookup_eq_none.1 hlookup (AList.mem_keys.2 hmem)
  rw [AList.keys_insert, List.length_cons, List.erase_of_not_mem habsent]

theorem length_erase_of_lookup {K V : Type} [DecidableEq K] {m : AList fun _ : K => V} {key : K}
    {v : V} (hlookup : m.lookup key = some v) :
    (m.erase key).keys.length + 1 = m.keys.length := by
  have hmem : key ∈ m.keys := AList.mem_keys.1 (AList.lookup_isSome.1 (by simp [hlookup]))
  rw [AList.keys_erase, List.length_erase_of_mem hmem]
  have hpos := List.length_pos_of_mem hmem
  omega

theorem LosesNoAlert.insert (h : LosesNoAlert d)
    (here : d.aggrGroupsPerRoute.lookup (route, fingerprint labels) = some ag) :
    LosesNoAlert
      { d.insertInto store (route, fingerprint labels) ag alert with
        history := .processed route labels alert :: d.history } where
  count := by
    rw [Dispatcher.insertInto, length_insert_of_lookup here]
    exact h.count
  keyed := keyed_insert h.keyed (h.keyed (route, fingerprint labels) ag here)
  kept := by
    intro newer older route' labels' alert' hhistory hnewest hunreported
    cases newer with
    | nil =>
      cases (List.cons.inj hhistory).1
      exact ⟨_, AList.lookup_insert _, store.get_set_self _ _⟩
    | cons e newer =>
      obtain ⟨rfl, hold⟩ := List.cons.inj hhistory
      apply InGroup.of_insert (h.before hold hnewest hunreported) rfl
      intro ag' hkey hlookup hget
      obtain ⟨rfl, hlabels⟩ := Prod.mk.inj hkey
      obtain rfl : ag = ag' := Option.some.inj (here.symm.trans hlookup)
      have hother := hnewest labels alert List.mem_cons_self hlabels
      exact (store.get_set_of_ne _ _ _ (Ne.symm hother)).trans hget

theorem LosesNoAlert.create (h : LosesNoAlert d)
    (absent : d.aggrGroupsPerRoute.lookup (route, fingerprint labels) = none)
    (own : ag.labels = labels) :
    LosesNoAlert
      { d.insertInto store (route, fingerprint labels) ag alert with
        aggrGroupsNum := d.aggrGroupsNum + 1
        history := .processed route labels alert :: d.history } where
  count := by
    rw [Dispatcher.insertInto, length_insert_of_absent absent, h.count]
    simp
  keyed := by
    apply keyed_insert h.keyed
    simp only [own]
  kept := by
    intro newer older route' labels' alert' hhistory hnewest hunreported
    cases newer with
    | nil =>
      cases (List.cons.inj hhistory).1
      exact ⟨_, AList.lookup_insert _, store.get_set_self _ _⟩
    | cons e newer =>
      obtain ⟨rfl, hold⟩ := List.cons.inj hhistory
      apply InGroup.of_insert (h.before hold hnewest hunreported) rfl
      intro ag' _ hlookup _
      exact absurd (absent.symm.trans hlookup) (Option.some_ne_none ag').symm

theorem LosesNoAlert.flushing (h : LosesNoAlert d) (flush : Option Flush)
    (here : d.aggrGroupsPerRoute.lookup key = some ag) :
    LosesNoAlert
      { d with
        aggrGroupsPerRoute := d.aggrGroupsPerRoute.insert key { ag with flushing := flush } } where
  count := by
    rw [length_insert_of_lookup here]
    exact h.count
  keyed := keyed_insert h.keyed (h.keyed key ag here)
  kept := by
    intro newer older route labels alert hhistory hnewest hunreported
    apply InGroup.of_insert (h.kept newer older route labels alert hhistory hnewest hunreported) rfl
    intro ag' _ hlookup hget
    obtain rfl : ag = ag' := Option.some.inj (here.symm.trans hlookup)
    exact hget

theorem LosesNoAlert.notified (h : LosesNoAlert d) (flush : Flush)
    (here : d.aggrGroupsPerRoute.lookup key = some ag) :
    LosesNoAlert
      { d with
        aggrGroupsPerRoute := d.aggrGroupsPerRoute.insert key
          { ag with
            alerts := store.deleteIfNotModified ag.alerts flush.resolvedSlice
            flushing := none }
        history := .notified key.1 key.2 flush.alerts :: d.history } where
  count := by
    rw [length_insert_of_lookup here]
    exact h.count
  keyed := keyed_insert h.keyed (h.keyed key ag here)
  kept := by
    intro newer older route labels alert hhistory hnewest hunreported
    cases newer with
    | nil => cases (List.cons.inj hhistory).1
    | cons e newer =>
      obtain ⟨rfl, hold⟩ := List.cons.inj hhistory
      apply InGroup.of_insert (h.before hold hnewest hunreported) rfl
      intro ag' hkey hlookup hget
      obtain rfl : ag = ag' := Option.some.inj (here.symm.trans hlookup)
      rcases store.get_delete ag.alerts flush.resolvedSlice (fingerprint alert.labels) with
        hsame | ⟨-, a, ha, hgiven⟩
      · exact hsame.trans hget
      · -- the flush would have reported the alert as resolved
        obtain rfl : alert = a := Option.some.inj (hget.symm.trans hgiven)
        obtain ⟨hreported, hend⟩ := flush.reported alert ha
        subst hkey
        exact absurd (hunreported flush.alerts List.mem_cons_self hreported) hend

theorem LosesNoAlert.remove (h : LosesNoAlert d) (here : d.aggrGroupsPerRoute.lookup key = some ag)
    (hempty : store.empty ag.alerts = true) (todo : List (Route × Fingerprint)) :
    LosesNoAlert
      { d with
        aggrGroupsPerRoute := d.aggrGroupsPerRoute.erase (key.1, fingerprint ag.labels)
        aggrGroupsNum := d.aggrGroupsNum - 1
        mtx := .maintaining todo } := by
  -- the group is deleted under the fingerprint of its labels, which is the one it is under
  have hkey : (key.1, fingerprint ag.labels) = key := by rw [h.keyed key ag here]
  rw [hkey]
  constructor
  case count =>
    have hlength := length_erase_of_lookup here
    have hcount := h.count
    simp only
    omega
  case keyed =>
    intro key' ag' hlookup
    by_cases heq : key' = key
    · rw [heq, AList.lookup_erase] at hlookup
      cases hlookup
    · rw [AList.lookup_erase_ne heq] at hlookup
      exact h.keyed key' ag' hlookup
  case kept =>
    intro newer older route labels alert hhistory hnewest hunreported
    obtain ⟨ag', hlookup, hget⟩ :=
      h.kept newer older route labels alert hhistory hnewest hunreported
    by_cases heq : (route, fingerprint labels) = key
    · rw [heq] at hlookup
      obtain rfl : ag = ag' := Option.some.inj (here.symm.trans hlookup)
      rw [(store.empty_iff ag.alerts).1 hempty] at hget
      cases hget
    · exact ⟨ag', (AList.lookup_erase_ne heq).trans hlookup, hget⟩

theorem LosesNoAlert.move (h : LosesNoAlert d) (hstops : StopsEmpty d)
    (hmove : DispatcherMove store d t) : LosesNoAlert t := by
  cases hmove with
  | hold mtx _ => exact ⟨h.count, h.keyed, h.kept⟩
  | insert route labels alert ag here _ => exact h.insert here
  | create route labels alert ag absent own _ => exact h.create absent own
  | flushing key ag flush here => exact h.flushing flush here
  | notified key ag flush here => exact h.notified flush here
  | remove key todo ag stopping here =>
    obtain ⟨ag', here', hempty⟩ := hstops key todo stopping
    obtain rfl : ag = ag' := Option.some.inj (here.symm.trans here')
    exact h.remove here hempty todo

/-- A group that is empty stays so, as long as nobody inserts into it. -/
theorem StopsEmpty.insert (h : StopsEmpty d) {ag ag' : AggrGroup store.Alerts}
    (here : d.aggrGroupsPerRoute.lookup key = some ag)
    (hkeep : store.empty ag.alerts = true → store.empty ag'.alerts = true) (hmtx : t.mtx = d.mtx)
    (hgroups : t.aggrGroupsPerRoute = d.aggrGroupsPerRoute.insert key ag') :
    StopsEmpty t := by
  intro key' todo hstopping
  rw [hmtx] at hstopping
  obtain ⟨ag'', here', hempty⟩ := h key' todo hstopping
  rw [hgroups]
  by_cases heq : key' = key
  · subst heq
    obtain rfl : ag = ag'' := Option.some.inj (here.symm.trans here')
    exact ⟨ag', AList.lookup_insert _, hkeep hempty⟩
  · exact ⟨ag'', (AList.lookup_insert_ne heq).trans here', hempty⟩

theorem StopsEmpty.move (h : StopsEmpty d) (hmove : DispatcherMove store d t) : StopsEmpty t := by
  cases hmove with
  | hold mtx hempty =>
    intro key todo hstopping
    obtain hsame | hhere := hempty key todo hstopping
    · exact h key todo (hsame.trans hstopping)
    · exact hhere
  | insert route labels alert ag here free =>
    intro key todo hstopping
    exact nomatch free.symm.trans hstopping
  | create route labels alert ag absent own free =>
    intro key todo hstopping
    exact nomatch free.symm.trans hstopping
  | flushing key ag flush here =>
    refine h.insert here ?_ rfl rfl
    exact id
  | notified key ag flush here =>
    exact h.insert here (empty_delete flush.resolvedSlice) rfl rfl
  | remove key todo ag stopping here => exact fun key' todo' hstopping => nomatch hstopping

/-- No group with an alert in it is removed by a step. -/
def RemovesOnlyEmpty (d t : Dispatcher Route store.Alerts) : Prop :=
  ∀ key ag, d.aggrGroupsPerRoute.lookup key = some ag → t.aggrGroupsPerRoute.lookup key = none →
    ∀ alert, alert ∉ store.list ag.alerts

theorem removesOnlyEmpty_of_insert
    (hgroups : t.aggrGroupsPerRoute = d.aggrGroupsPerRoute.insert key ag) :
    RemovesOnlyEmpty d t := by
  intro key' ag' hlookup hnone
  rw [hgroups] at hnone
  by_cases heq : key' = key
  · rw [heq, AList.lookup_insert] at hnone
    cases hnone
  · rw [AList.lookup_insert_ne heq, hlookup] at hnone
    cases hnone

theorem RemovesOnlyEmpty.of_move (h : LosesNoAlert d) (hstops : StopsEmpty d)
    (hmove : DispatcherMove store d t) : RemovesOnlyEmpty d t := by
  cases hmove with
  | hold mtx _ =>
    intro key ag hlookup hnone
    exact nomatch hlookup.symm.trans hnone
  | insert route labels alert ag here free => exact removesOnlyEmpty_of_insert rfl
  | create route labels alert ag absent own free => exact removesOnlyEmpty_of_insert rfl
  | flushing key ag flush here => exact removesOnlyEmpty_of_insert rfl
  | notified key ag flush here => exact removesOnlyEmpty_of_insert rfl
  | remove key todo ag stopping here =>
    intro key' ag' hlookup hnone alert halert
    have hkey : (key.1, fingerprint ag.labels) = key := by rw [h.keyed key ag here]
    simp only [hkey] at hnone
    by_cases heq : key' = key
    · subst heq
      obtain ⟨ag'', here', hempty⟩ := hstops key' todo stopping
      obtain rfl : ag' = ag'' := Option.some.inj (hlookup.symm.trans here')
      have hget := (store.mem_list ag'.alerts alert).1 halert
      rw [(store.empty_iff ag'.alerts).1 hempty] at hget
      cases hget
    · rw [AList.lookup_erase_ne heq, hlookup] at hnone
      cases hnone

/-! ## Every interleaving -/

/-- No flush of the group that reported a version of the alert as resolved has succeeded since. -/
def NeverResolved (fingerprint : LabelSet → Fingerprint) (newer : List (Event Route))
    (route : Route) (labels : LabelSet) (alert : Alert) : Prop :=
  ∀ alerts a, .notified route (fingerprint labels) alerts ∈ newer → a ∈ alerts →
    fingerprint a.labels = fingerprint alert.labels → a.endsAt = 0

/-- The event puts a version of the alert into the group. -/
def Event.puts (fingerprint : LabelSet → Fingerprint) (route : Route) (labels : LabelSet)
    (alert : Alert) : Event Route → Bool
  | .processed route' labels' alert' =>
    route' = route && fingerprint labels' = fingerprint labels &&
      fingerprint alert'.labels = fingerprint alert.labels
  | .notified _ _ _ => false

/-- Until then the newest version of the alert is in the group. -/
theorem LosesNoAlert.version (h : LosesNoAlert d) {newer older : List (Event Route)}
    (hhistory : d.history = newer ++ .processed route labels alert :: older)
    (hresolved : NeverResolved fingerprint newer route labels alert) :
    ∃ a, fingerprint a.labels = fingerprint alert.labels ∧ InGroup d route labels a := by
  cases hfind : newer.find? (Event.puts fingerprint route labels alert) with
  | none =>
    refine ⟨alert, rfl, h.kept newer older route labels alert hhistory ?_ ?_⟩
    · intro labels' alert' hmem hlabels halert
      have hno := List.find?_eq_none.1 hfind _ hmem
      simp [Event.puts, hlabels, halert] at hno
    · exact fun alerts hmem halert => hresolved alerts alert hmem halert rfl
  | some e =>
    obtain ⟨he, newer', between, rfl, hnot⟩ := List.find?_eq_some_iff_append.1 hfind
    cases e with
    | notified route' fp alerts => cases he
    | processed route' labels' a =>
      simp only [Event.puts, Bool.and_eq_true, decide_eq_true_eq] at he
      obtain ⟨⟨rfl, hlabels⟩, ha⟩ := he
      have hsplit : d.history = newer' ++ .processed route' labels' a ::
          (between ++ .processed route' labels alert :: older) := by
        rw [hhistory, List.append_assoc, List.cons_append]
      have hin : InGroup d route' labels' a := by
        apply h.kept newer' _ route' labels' a hsplit
        · intro labels'' a' hmem hlabels' ha'
          have hno := hnot _ hmem
          simp [Event.puts, hlabels', hlabels, ha', ha] at hno
        · intro alerts hmem halert
          rw [hlabels] at hmem
          exact hresolved alerts a (List.mem_append_left _ hmem) halert ha
      refine ⟨a, ha, ?_⟩
      rw [InGroup, hlabels] at hin
      exact hin

/-- Over every interleaving the count and the keys of the groups are right, an alert that was
processed is in its group until a flush that reported it as resolved has succeeded, and no group
with an alert in it is removed. -/
theorem groups_lose_no_alert (store : AlertStore fingerprint) (less : Alert → Alert → Bool)
    (routeOpts : Route → RouteOpts) (maxNumberOfAggregationGroups : Int)
    (steps : List (DispatcherStep Route)) (d : Dispatcher Route store.Alerts)
    (hrun : Lib.Runs.exec (dispatcherStep store less routeOpts maxNumberOfAggregationGroups)
      initialDispatcher steps = some d) :
    d.aggrGroupsNum = d.aggrGroupsPerRoute.keys.length ∧
    (∀ key ag, d.aggrGroupsPerRoute.lookup key = some ag → fingerprint ag.labels = key.2) ∧
    (∀ newer older route labels alert,
      d.history = newer ++ .processed route labels alert :: older →
        (Newest fingerprint newer route labels alert →
          Unreported fingerprint newer route labels alert → InGroup d route labels alert) ∧
        (NeverResolved fingerprint newer route labels alert →
          ∃ a, fingerprint a.labels = fingerprint alert.labels ∧ InGroup d route labels a)) ∧
    ∀ step t, dispatcherStep store less routeOpts maxNumberOfAggregationGroups d step = some t →
      RemovesOnlyEmpty d t := by
  obtain ⟨h, hstops⟩ : LosesNoAlert d ∧ StopsEmpty d := by
    apply Lib.Runs.exec_invariant (I := fun _ d => LosesNoAlert d ∧ StopsEmpty d) _ _ steps d hrun
    · refine ⟨⟨rfl, ?_, ?_⟩, fun _ _ hstopping => nomatch hstopping⟩
      · intro key ag hlookup
        exact nomatch hlookup
      · intro newer older route labels alert hhistory
        exact absurd hhistory.symm
          (List.append_ne_nil_of_right_ne_nil newer (List.cons_ne_nil _ _))
    · rintro - m a t ⟨h, hstops⟩ hstep
      have hmove := move_of_dispatcherStep hstep
      exact ⟨h.move hstops hmove, hstops.move hmove⟩
  refine ⟨h.count, h.keyed, ?_, ?_⟩
  · intro newer older route labels alert hhistory
    exact ⟨h.kept newer older route labels alert hhistory, h.version hhistory⟩
  · intro step t hstep
    exact RemovesOnlyEmpty.of_move h hstops (move_of_dispatcherStep hstep)

end Steps

end Dispatcher

/-! ## A store, and an alert that fires again -/

theorem find?_fingerprint {fingerprint : LabelSet → Fingerprint} {l : List Alert}
    (hnodup : (l.map fun a => fingerprint a.labels).Nodup) {fp : Fingerprint} {a : Alert} :
    (l.find? fun a => fingerprint a.labels = fp) = some a ↔
      a ∈ l ∧ fingerprint a.labels = fp := by
  constructor
  · intro hfind
    exact ⟨List.mem_of_find?_eq_some hfind, by simpa using List.find?_some hfind⟩
  · rintro ⟨ha, hfp⟩
    cases hfind : l.find? fun a => fingerprint a.labels = fp with
    | none =>
      have hno := List.find?_eq_none.1 hfind a ha
      exact absurd hfp (by simpa using hno)
    | some b =>
      have hb : fingerprint b.labels = fp := by simpa using List.find?_some hfind
      have hmem := List.mem_of_find?_eq_some hfind
      rw [List.inj_on_of_nodup_map hnodup hmem ha (hb.trans hfp.symm)]

/-- A store that keeps its alerts in a list. -/
def listStore (fingerprint : LabelSet → Fingerprint) : AlertStore fingerprint where
  Alerts := { l : List Alert // (l.map fun a => fingerprint a.labels).Nodup }
  newAlerts := ⟨[], List.nodup_nil⟩
  get s fp := s.1.find? fun a => fingerprint a.labels = fp
  set s a :=
    ⟨a :: s.1.filter fun b => fingerprint b.labels ≠ fingerprint a.labels, by
      rw [List.map_cons, List.nodup_cons]
      refine ⟨?_, s.2.sublist (List.filter_sublist.map _)⟩
      intro hmem
      obtain ⟨b, hb, heq⟩ := List.mem_map.1 hmem
      rw [List.mem_filter] at hb
      exact (by simpa using hb.2 : fingerprint b.labels ≠ fingerprint a.labels) heq⟩
  list s := s.1
  empty s := s.1.isEmpty
  deleteIfNotModified s given :=
    ⟨s.1.filter fun a => a ∉ given,
      s.2.sublist (List.filter_sublist.map fun a : Alert => fingerprint a.labels)⟩
  get_new _ := rfl
  get_set_self s a := List.find?_cons_of_pos (by simp)
  get_set_of_ne s a fp hne := by
    rw [List.find?_cons_of_neg (by simpa using Ne.symm hne), List.find?_filter]
    congr 1
    funext b
    by_cases heq : fingerprint b.labels = fp
    · simp [heq, hne]
    · simp [heq]
  mem_list s a := by
    rw [find?_fingerprint s.2]
    exact ⟨fun ha => ⟨ha, rfl⟩, fun h => h.1⟩
  empty_iff s := by
    rw [List.isEmpty_iff]
    constructor
    · intro hempty fp
      rw [hempty]
      rfl
    · intro hnone
      apply List.eq_nil_iff_forall_not_mem.2
      intro a ha
      have hfind := (find?_fingerprint s.2).2 ⟨ha, rfl⟩
      rw [hnone] at hfind
      cases hfind
  get_delete s given fp := by
    have hnodup := s.2.sublist ((List.filter_sublist (p := fun a => decide (a ∉ given))).map
      fun a => fingerprint a.labels)
    cases hfind : s.1.find? fun a => fingerprint a.labels = fp with
    | none =>
      left
      apply List.find?_eq_none.2
      intro a ha
      exact List.find?_eq_none.1 hfind a (List.mem_of_mem_filter ha)
    | some a =>
      obtain ⟨ha, hfp⟩ := (find?_fingerprint s.2).1 hfind
      by_cases hgiven : a ∈ given
      · refine .inr ⟨?_, a, hgiven, rfl⟩
        apply List.find?_eq_none.2
        intro b hb hb_fp
        rw [List.mem_filter] at hb
        obtain rfl : b = a :=
          List.inj_on_of_nodup_map s.2 hb.1 ha ((by simpa using hb_fp : _ = fp).trans hfp.symm)
        simp [hgiven] at hb
      · left
        apply (find?_fingerprint hnodup).2
        exact ⟨List.mem_filter.2 ⟨ha, by simpa using hgiven⟩, hfp⟩

/-- A fingerprint for the run below: the lengths of the values. -/
def sampleFingerprint (labels : LabelSet) : Fingerprint :=
  (labels.map fun l => l.2.length).sum

def sampleOpts (channel : String) : RouteOpts := ⟨channel, 30, 300, 0⟩

/-- The alert, resolved at 50, and firing again. -/
def resolvedAlert : Alert := ⟨[("ruleId", "r"), ("host", "a")], 10, 50, 50⟩

def firingAgain : Alert := ⟨[("ruleId", "r"), ("host", "a")], 90, 0, 90⟩

/-- The alert fires again while the notifier reports that it is resolved. -/
def refiredDuringFlush : List (DispatcherStep String) :=
  [.processAlert resolvedAlert "slack" (some getDefaultNotificationConfig),
    .flush ("slack", 1) 80,
    .processAlert firingAgain "slack" (some getDefaultNotificationConfig),
    .notifyReturns ("slack", 1) true]

/-- The alert that fires again stays in the group. -/
theorem refired_alert_stays :
    ∃ d, Lib.Runs.exec (dispatcherStep (listStore sampleFingerprint) (fun _ _ => true) sampleOpts 0)
        initialDispatcher refiredDuringFlush = some d ∧
      InGroup d "slack" [("ruleId", "r")] firingAgain := by
  refine ⟨_, by with_unfolding_all rfl, ?_⟩
  have h := groups_lose_no_alert (listStore sampleFingerprint) (fun _ _ => true) sampleOpts 0
    refiredDuringFlush _ (by with_unfolding_all rfl)
  apply (h.2.2.1 [.notified "slack" 1 [resolvedAlert]]
    [.processed "slack" [("ruleId", "r")] resolvedAlert] "slack" [("ruleId", "r")] firingAgain
    (by with_unfolding_all rfl)).1
  · intro labels alert hmem
    cases List.mem_singleton.1 hmem
  · exact fun _ _ _ => rfl

end Signoz.Alertmanager
