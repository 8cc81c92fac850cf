import Mathlib.Data.List.Nodup
import Signoz.Alertmanager.Config
import Signoz.Lib.Runs

/-!
# Starting an alertmanager server

The configuration of an organisation is kept twice: as the stored configuration, and in the tables
it was made from, the channels and the rules. `newServer` of `service.go` overlays the stored
configuration with the settings of the process, rebuilds one from the tables, and stores the
rebuilt one when the hashes differ. The receivers can be rebuilt after every history of channel
operations; the inhibit rules are in no table. `newServer_keeps_iff` says when a start keeps both.
-/

namespace Signoz.Alertmanager

open Lib.Runs

variable {G B H : Type}

/-! ## The store and the provider -/

/-- What is stored for an organisation: its configuration and its channels. -/
structure ConfigStore (G B : Type) where
  config : Config G B
  channels : List (Channel B)
deriving DecidableEq

/-- The settings of the process. -/
structure ServiceConfig (G : Type) where
  global : G
  route : RouteConfig

variable (env : ConfigEnv G B H) (settings : ServiceConfig G)

section Provider

variable (regexpMatches : String → String → Bool)

/-- `GetChannelByID`. -/
def ConfigStore.getChannelByID (s : ConfigStore G B) (id : String) : Option (Channel B) :=
  s.channels.find? fun c => c.id = id

/-- `CreateChannel`, with the id that it generates. The receiver shares its settings with the
configuration, so the channel is made from the completed receiver. -/
def createChannel (s : ConfigStore G B) (receiver : Receiver B) (id : String) :
    Option (ConfigStore G B) :=
  (s.config.createReceiver env receiver).bind fun config =>
    (newChannelFromReceiver env id
        ⟨receiver.name, env.complete s.config.global receiver.body⟩).bind fun channel =>
      if s.channels.any fun c => c.id = id then none
      else some ⟨config, s.channels ++ [channel]⟩

/-- `UpdateChannelByReceiverAndID`. -/
def updateChannelByReceiverAndID (s : ConfigStore G B) (receiver : Receiver B) (id : String) :
    Option (ConfigStore G B) :=
  (s.getChannelByID id).bind fun channel =>
    (channel.update env receiver).bind fun channel =>
      (s.config.updateReceiver env receiver).map fun config =>
        ⟨config, s.channels.map fun c => if c.id = id then channel else c⟩

/-- `DeleteChannelByID`, where `inUse` tells whether a route policy uses a channel. -/
def deleteChannelByID (s : ConfigStore G B) (inUse : String → Bool) (id : String) :
    Option (ConfigStore G B) :=
  (s.getChannelByID id).bind fun channel =>
    if inUse channel.name then none
    else
      (s.config.deleteReceiver channel.name).map fun config =>
        ⟨config, s.channels.filter fun c => c.id ≠ id⟩

/-- `CreateInhibitRules`. -/
def createInhibitRules (s : ConfigStore G B) (rules : List InhibitRule) : ConfigStore G B :=
  { s with config := s.config.addInhibitRules rules }

/-- `DeleteAllInhibitRulesByRuleId`. -/
def deleteAllInhibitRulesByRuleId (s : ConfigStore G B) (ruleId : String) : ConfigStore G B :=
  { s with config := s.config.deleteRuleIDInhibitor regexpMatches ruleId }

/-- A call of the provider. -/
inductive ProviderCall (B : Type) where
  | createChannel (receiver : Receiver B) (id : String)
  | updateChannel (receiver : Receiver B) (id : String)
  | deleteChannel (inUse : String → Bool) (id : String)
  | createInhibitRules (rules : List InhibitRule)
  | deleteAllInhibitRulesByRuleId (ruleId : String)

/-- A call that fails leaves the store as it was. -/
def providerStep (s : ConfigStore G B) : ProviderCall B → Option (ConfigStore G B)
  | .createChannel receiver id => some ((createChannel env s receiver id).getD s)
  | .updateChannel receiver id => some ((updateChannelByReceiverAndID env s receiver id).getD s)
  | .deleteChannel inUse id => some ((deleteChannelByID s inUse id).getD s)
  | .createInhibitRules rules => some (createInhibitRules s rules)
  | .deleteAllInhibitRulesByRuleId ruleId =>
    some (deleteAllInhibitRulesByRuleId regexpMatches s ruleId)

end Provider

/-! ## The service -/

/-- `getConfig` for a stored configuration: the settings of the process over it. -/
def getConfig (c : Config G B) : Option (Config G B) :=
  (c.setGlobalConfig env settings.global).setRouteConfig env settings.route

/-- The configuration that `compareAndSelectConfig` rebuilds from the channels and from the rules
with their channels. -/
def rebuildConfig (channels : List (Channel B)) (matchers : List (String × List String)) :
    Option (Config G B) :=
  (newConfigFromChannels env settings.global settings.route channels).bind fun config =>
    matchers.foldlM (fun c m => c.createRuleIDMatcher env m.1 m.2) config

variable [DecidableEq H]

/-- `compareAndSelectConfig`. -/
def compareAndSelectConfig (incomingConfig : Config G B) (channels : List (Channel B))
    (matchers : List (String × List String)) : Option (Config G B) :=
  (rebuildConfig env settings channels matchers).map fun config =>
    if env.hash incomingConfig ≠ env.hash config then config else incomingConfig

/-- `newServer`, where `channels` and `matchers` are what the tables list: the stored configuration
afterwards, unless the start fails. -/
def newServer (s : ConfigStore G B) (channels : List (Channel B))
    (matchers : List (String × List String)) : Option (ConfigStore G B) :=
  (getConfig env settings s.config).bind fun incoming =>
    (compareAndSelectConfig env settings incoming channels matchers).map fun config =>
      if env.hash s.config = env.hash config then s else { s with config := config }

/-- A call of the provider, or a start with what the tables list. -/
inductive ServiceCall (B : Type) where
  | provider (call : ProviderCall B)
  | start (channels : List (Channel B)) (matchers : List (String × List String))

/-- A start that fails leaves the store as it was; the table lists the stored channels, in any
order. -/
def serviceStep [DecidableEq B] (regexpMatches : String → String → Bool) (s : ConfigStore G B) :
    ServiceCall B → Option (ConfigStore G B)
  | .provider call => providerStep env regexpMatches s call
  | .start channels matchers =>
    if channels.isPerm s.channels then some ((newServer env settings s channels matchers).getD s)
    else none

omit [DecidableEq H]

/-! ## Channels and receivers -/

/-- A receiver with the settings it takes from the global ones. -/
def Receiver.completed (r : Receiver B) : Receiver B :=
  ⟨r.name, env.complete (env.withDefaults settings.global) r.body⟩

/-- The receiver of a channel. -/
def Channel.receiver (c : Channel B) : Receiver B := Receiver.completed env settings c.data

/-- The receivers that the channels stand for. -/
def receiversOf (channels : List (Channel B)) : List (Receiver B) :=
  ⟨defaultReceiverName, env.empty⟩ :: channels.map (Channel.receiver env settings)

/-- The configuration and the channels agree. -/
structure Agree (s : ConfigStore G B) : Prop where
  global : s.config.global = env.withDefaults settings.global
  receivers : s.config.receivers.Perm (receiversOf env settings s.channels)
  named : ∀ c ∈ s.channels, c.data.name = c.name
  names : (defaultReceiverName :: s.channels.map Channel.name).Nodup
  ids : (s.channels.map Channel.id).Nodup

section Receivers

variable {env settings}

@[simp] theorem Receiver.completed_name (r : Receiver B) :
    (r.completed env settings).name = r.name := rfl

@[simp] theorem Receiver.completed_completed (r : Receiver B) :
    (r.completed env settings).completed env settings = r.completed env settings := by
  simp only [Receiver.completed, env.complete_complete]

theorem completed_default :
    Receiver.completed env settings ⟨defaultReceiverName, env.empty⟩ =
      ⟨defaultReceiverName, env.empty⟩ := by
  simp only [Receiver.completed, env.complete_empty]

/-- The receivers of channels are complete. -/
theorem map_completed_receiversOf (channels : List (Channel B)) :
    (receiversOf env settings channels).map (Receiver.completed env settings) =
      receiversOf env settings channels := by
  rw [receiversOf, List.map_cons, completed_default, List.map_map]
  congr 1
  apply List.map_congr_left
  intro c _
  exact Receiver.completed_completed c.data

/-- The names of the receivers are those of the channels and the default one. -/
theorem map_name_receiversOf (env : ConfigEnv G B H) (settings : ServiceConfig G)
    {channels : List (Channel B)} (hnamed : ∀ c ∈ channels, c.data.name = c.name) :
    (receiversOf env settings channels).map Receiver.name =
      defaultReceiverName :: channels.map Channel.name := by
  rw [receiversOf, List.map_cons, List.map_map]
  congr 1
  exact List.map_congr_left hnamed

theorem Agree.receiverNames {s : ConfigStore G B} (h : Agree env settings s) :
    (s.config.receivers.map Receiver.name).Nodup := by
  rw [(h.receivers.map Receiver.name).nodup_iff, map_name_receiversOf env settings h.named]
  exact h.names

/-- What upstream's checks leave of a configuration. -/
theorem unmarshalYAML_eq_some {c c' : Config G B} (h : c.unmarshalYAML env = some c')
    (hglobal : c.global = env.withDefaults settings.global) :
    c'.global = c.global ∧ c'.inhibitRules = c.inhibitRules ∧
      c'.receivers = c.receivers.map (Receiver.completed env settings) := by
  rw [Config.unmarshalYAML] at h
  split at h
  · obtain rfl := Option.some.inj h
    refine ⟨rfl, rfl, ?_⟩
    simp only [hglobal]
    rfl
  · cases h

/-- A receiver is added, under a name that was free. -/
theorem createReceiver_eq_some {c c' : Config G B} {receiver : Receiver B}
    (h : c.createReceiver env receiver = some c')
    (hglobal : c.global = env.withDefaults settings.global) :
    receiver.name ∉ c.receivers.map Receiver.name ∧ c'.global = c.global ∧
      c'.inhibitRules = c.inhibitRules ∧
      c'.receivers = (c.receivers ++ [receiver]).map (Receiver.completed env settings) := by
  rw [Config.createReceiver] at h
  split at h
  · cases h
  · rename_i hfree
    refine ⟨?_, unmarshalYAML_eq_some h hglobal⟩
    intro hmem
    obtain ⟨r, hr, hname⟩ := List.mem_map.1 hmem
    exact hfree (List.any_eq_true.2 ⟨r, hr, decide_eq_true hname⟩)

/-- With distinct names, replacing the first receiver of a name is replacing every one. -/
theorem replaceReceiver_eq_map (receiver : Receiver B) {rs : List (Receiver B)}
    (hnodup : (rs.map Receiver.name).Nodup) :
    replaceReceiver receiver rs = rs.map fun r => if r.name = receiver.name then receiver else r := by
  induction rs with
  | nil => rfl
  | cons r rs ih =>
    rw [List.map_cons, List.nodup_cons] at hnodup
    rw [replaceReceiver, List.map_cons]
    split
    · rename_i hname
      congr 1
      symm
      apply (List.map_congr_left _).trans (List.map_id rs)
      intro r' hr'
      rw [if_neg]
      · rfl
      · intro hsame
        exact hnodup.1 (List.mem_map.2 ⟨r', hr', hsame.trans hname.symm⟩)
    · rw [ih hnodup.2]

/-- With distinct names, deleting the first receiver of a name is deleting every one. -/
theorem eraseP_eq_filter {rs : List (Receiver B)} (hnodup : (rs.map Receiver.name).Nodup)
    (name : String) :
    (rs.eraseP fun r => r.name = name) = rs.filter fun r => r.name ≠ name := by
  induction rs with
  | nil => rfl
  | cons r rs ih =>
    rw [List.map_cons, List.nodup_cons] at hnodup
    rw [List.eraseP_cons, List.filter_cons]
    by_cases hname : r.name = name
    · simp only [hname, decide_true, cond_true, ne_eq, not_true_eq_false, decide_false,
        Bool.false_eq_true, if_false]
      symm
      apply List.filter_eq_self.2
      intro r' hr'
      apply decide_eq_true
      intro hsame
      exact hnodup.1 (List.mem_map.2 ⟨r', hr', hsame.trans hname.symm⟩)
    · simp only [hname, decide_false, cond_false, ne_eq, not_false_eq_true, decide_true, if_true,
        ih hnodup.2]

/-- The completed receivers are again those of the channels. -/
theorem Agree.map_completed {s : ConfigStore G B} (h : Agree env settings s)
    (more : List (Receiver B)) :
    ((s.config.receivers ++ more).map (Receiver.completed env settings)).Perm
      (receiversOf env settings s.channels ++ more.map (Receiver.completed env settings)) := by
  rw [List.map_append]
  apply List.Perm.append_right
  rw [← map_completed_receiversOf s.channels]
  exact h.receivers.map _

end Receivers

/-! ## Calls of the provider -/

section Calls

variable {env settings} {s s' : ConfigStore G B} {id : String} {receiver : Receiver B}
  {c : Channel B}

theorem newChannelFromReceiver_eq_some (h : newChannelFromReceiver env id receiver = some c) :
    receiver.name ≠ defaultReceiverName ∧ c.id = id ∧ c.name = receiver.name ∧
      c.data = receiver := by
  rw [newChannelFromReceiver] at h
  split at h
  · cases h
  · rename_i hname
    obtain ⟨type, -, rfl⟩ := Option.map_eq_some_iff.1 h
    exact ⟨hname, rfl, rfl, rfl⟩

theorem agree_createChannel (h : Agree env settings s)
    (hcall : createChannel env s receiver id = some s') : Agree env settings s' := by
  obtain ⟨config, hconfig, hcall⟩ := Option.bind_eq_some_iff.1 hcall
  obtain ⟨channel, hchannel, hcall⟩ := Option.bind_eq_some_iff.1 hcall
  obtain ⟨hfree, hglobal, -, hreceivers⟩ := createReceiver_eq_some hconfig h.global
  obtain ⟨hnotDefault, rfl, hname, hdata⟩ := newChannelFromReceiver_eq_some hchannel
  split at hcall
  · cases hcall
  · rename_i hfreeId
    obtain rfl := Option.some.inj hcall
    have hname : channel.name = receiver.name := hname
    have hdata : channel.data = Receiver.completed env settings receiver := by
      rw [hdata, h.global]
      rfl
    refine ⟨hglobal.trans h.global, ?_, ?_, ?_, ?_⟩
    · rw [hreceivers]
      apply (h.map_completed [receiver]).trans
      rw [receiversOf, receiversOf, List.map_append, List.cons_append]
      simp only [List.map_cons, List.map_nil, Channel.receiver, hdata,
        Receiver.completed_completed]
      exact List.Perm.refl _
    · intro c hc
      rcases List.mem_append.1 hc with hold | hnew
      · exact h.named c hold
      · obtain rfl := List.mem_singleton.1 hnew
        rw [hdata, hname]
        rfl
    · have hnot : receiver.name ∉ defaultReceiverName :: s.channels.map Channel.name := by
        rw [← map_name_receiversOf env settings h.named,
          ← (h.receivers.map Receiver.name).mem_iff]
        exact hfree
      rw [List.map_append, ← List.cons_append]
      apply List.Nodup.append h.names (List.nodup_singleton _)
      intro name hmem hnew
      rw [List.mem_singleton.1 hnew, hname] at hmem
      exact hnot hmem
    · rw [List.map_append]
      apply List.Nodup.append h.ids (List.nodup_singleton _)
      intro id hmem hnew
      obtain ⟨c, hc, hsame⟩ := List.mem_map.1 hmem
      have hid : c.id = channel.id := hsame.trans (List.mem_singleton.1 hnew)
      exact hfreeId (List.any_eq_true.2 ⟨c, hc, decide_eq_true hid⟩)

theorem getChannelByID_eq_some (h : s.getChannelByID id = some c) : c ∈ s.channels ∧ c.id = id := by
  have hfound := List.find?_some h
  exact ⟨List.mem_of_find?_eq_some h, of_decide_eq_true hfound⟩

/-- Two stored channels have the same name when they have the same id. -/
theorem Agree.name_eq_iff (h : Agree env settings s) {c d : Channel B} (hc : c ∈ s.channels)
    (hd : d ∈ s.channels) : c.name = d.name ↔ c.id = d.id := by
  constructor
  · intro hname
    rw [List.inj_on_of_nodup_map (List.nodup_cons.1 h.names).2 hc hd hname]
  · intro hid
    rw [List.inj_on_of_nodup_map h.ids hc hd hid]

/-- No channel has the name of the default receiver. -/
theorem Agree.name_ne_default (h : Agree env settings s) (hc : c ∈ s.channels) :
    c.name ≠ defaultReceiverName := by
  intro hname
  exact (List.nodup_cons.1 h.names).1 (List.mem_map.2 ⟨c, hc, hname⟩)

theorem agree_updateChannel (h : Agree env settings s)
    (hcall : updateChannelByReceiverAndID env s receiver id = some s') :
    Agree env settings s' := by
  obtain ⟨old, hold, hcall⟩ := Option.bind_eq_some_iff.1 hcall
  obtain ⟨channel, hupdate, hcall⟩ := Option.bind_eq_some_iff.1 hcall
  obtain ⟨config, hconfig, rfl⟩ := Option.map_eq_some_iff.1 hcall
  obtain ⟨hmem, rfl⟩ := getChannelByID_eq_some hold
  -- The channel keeps its id and its name and gets the receiver as data.
  obtain ⟨fresh, hfresh, hupdate⟩ := Option.bind_eq_some_iff.1 hupdate
  obtain ⟨-, -, hfreshName, hfreshData⟩ := newChannelFromReceiver_eq_some hfresh
  split at hupdate
  · cases hupdate
  · rename_i hsame
    obtain rfl := Option.some.inj hupdate
    have hname : old.name = receiver.name := by
      rw [← hfreshName]
      exact not_not.1 hsame
    obtain ⟨hglobal, -, hreceivers⟩ := unmarshalYAML_eq_some hconfig h.global
    refine ⟨hglobal.trans h.global, ?_, ?_, ?_, ?_⟩
    · rw [hreceivers, replaceReceiver_eq_map receiver h.receiverNames]
      apply ((h.receivers.map _).map _).trans
      rw [receiversOf, receiversOf, List.map_cons, List.map_cons, if_neg, completed_default,
        List.map_map, List.map_map, List.map_map]
      · apply List.Perm.of_eq
        congr 1
        apply List.map_congr_left
        intro c hc
        have hcname : c.data.name = receiver.name ↔ c.id = old.id := by
          rw [h.named c hc, ← hname, h.name_eq_iff hc hmem]
        simp only [Function.comp_apply, Channel.receiver, Receiver.completed_name, hcname]
        split
        · rw [hfreshData]
        · exact Receiver.completed_completed c.data
      · rw [← hname]
        exact (h.name_ne_default hmem).symm
    · intro c hc
      obtain ⟨c', hc', rfl⟩ := List.mem_map.1 hc
      split
      · rw [hfreshData]
        exact hname.symm
      · exact h.named c' hc'
    · have hnames : (s.channels.map fun c => if c.id = old.id then { old with data := fresh.data }
          else c).map Channel.name = s.channels.map Channel.name := by
        rw [List.map_map]
        apply List.map_congr_left
        intro c hc
        rw [Function.comp_apply]
        split
        · rename_i hid
          exact ((h.name_eq_iff hc hmem).2 hid).symm
        · rfl
      rw [hnames]
      exact h.names
    · have hids : (s.channels.map fun c => if c.id = old.id then { old with data := fresh.data }
          else c).map Channel.id = s.channels.map Channel.id := by
        rw [List.map_map]
        apply List.map_congr_left
        intro c _
        rw [Function.comp_apply]
        split
        · rename_i hid
          exact hid.symm
        · rfl
      rw [hids]
      exact h.ids

theorem agree_deleteChannel (h : Agree env settings s) {inUse : String → Bool}
    (hcall : deleteChannelByID s inUse id = some s') : Agree env settings s' := by
  obtain ⟨old, hold, hcall⟩ := Option.bind_eq_some_iff.1 hcall
  obtain ⟨hmem, rfl⟩ := getChannelByID_eq_some hold
  split at hcall
  · cases hcall
  · obtain ⟨config, hconfig, rfl⟩ := Option.map_eq_some_iff.1 hcall
    rw [Config.deleteReceiver] at hconfig
    split at hconfig
    · cases hconfig
    · obtain rfl := Option.some.inj hconfig
      have hkept : (s.channels.filter fun c => c.id ≠ old.id).Sublist s.channels :=
        List.filter_sublist
      refine ⟨h.global, ?_, ?_, ?_, ?_⟩
      · simp only [eraseP_eq_filter h.receiverNames]
        apply (h.receivers.filter _).trans
        rw [receiversOf, receiversOf, List.filter_cons_of_pos, List.filter_map]
        · apply List.Perm.of_eq
          congr 2
          apply List.filter_congr
          intro c hc
          simp only [Function.comp_apply, Channel.receiver, Receiver.completed_name,
            h.named c hc, ne_eq, h.name_eq_iff hc hmem]
        · exact decide_eq_true (h.name_ne_default hmem).symm
      · exact fun c hc => h.named c (List.mem_of_mem_filter hc)
      · exact ((hkept.map Channel.name).cons_cons _).nodup h.names
      · exact (hkept.map Channel.id).nodup h.ids

/-- Every call of the provider keeps configuration and channels in agreement. -/
theorem agree_providerStep (regexpMatches : String → String → Bool) {call : ProviderCall B}
    (h : Agree env settings s) (hstep : providerStep env regexpMatches s call = some s') :
    Agree env settings s' := by
  cases call with
  | createChannel receiver id =>
    obtain rfl := Option.some.inj hstep
    cases hcall : createChannel env s receiver id with
    | none => exact h
    | some after => exact agree_createChannel h hcall
  | updateChannel receiver id =>
    obtain rfl := Option.some.inj hstep
    cases hcall : updateChannelByReceiverAndID env s receiver id with
    | none => exact h
    | some after => exact agree_updateChannel h hcall
  | deleteChannel inUse id =>
    obtain rfl := Option.some.inj hstep
    cases hcall : deleteChannelByID s inUse id with
    | none => exact h
    | some after => exact agree_deleteChannel h hcall
  | createInhibitRules rules =>
    obtain rfl := Option.some.inj hstep
    exact ⟨h.global, h.receivers, h.named, h.names, h.ids⟩
  | deleteAllInhibitRulesByRuleId ruleId =>
    obtain rfl := Option.some.inj hstep
    exact ⟨h.global, h.receivers, h.named, h.names, h.ids⟩

end Calls

/-! ## A start -/

section Start

variable {env settings} {s s' : ConfigStore G B}

theorem createRuleIDMatcher_eq_some {c c' : Config G B} {ruleID : String} {names : List String}
    (h : c.createRuleIDMatcher env ruleID names = some c') :
    c'.receivers = c.receivers ∧ c'.inhibitRules = c.inhibitRules ∧ c'.global = c.global := by
  obtain ⟨routes, -, rfl⟩ := Option.map_eq_some_iff.1 h
  exact ⟨rfl, rfl, rfl⟩

/-- Receivers created one after another stand behind the old ones, all completed. -/
theorem foldlM_createReceiver (channels : List (Channel B)) :
    ∀ {c c' : Config G B}, c.global = env.withDefaults settings.global →
      c.receivers.map (Receiver.completed env settings) = c.receivers →
      (channels.foldlM (fun c channel => c.createReceiver env channel.data) c) = some c' →
      c'.global = c.global ∧ c'.inhibitRules = c.inhibitRules ∧
        c'.receivers = c.receivers ++ channels.map (Channel.receiver env settings) := by
  induction channels with
  | nil =>
    intro c c' _ _ hfold
    obtain rfl := Option.some.inj hfold
    exact ⟨rfl, rfl, (List.append_nil _).symm⟩
  | cons channel channels ih =>
    intro c c' hglobal hcomplete hfold
    rw [List.foldlM_cons] at hfold
    obtain ⟨next, hnext, hrest⟩ := Option.bind_eq_some_iff.1 hfold
    obtain ⟨-, hnextGlobal, hinhibit, hreceivers⟩ := createReceiver_eq_some hnext hglobal
    rw [List.map_append, hcomplete, List.map_cons, List.map_nil] at hreceivers
    have hnextComplete : next.receivers.map (Receiver.completed env settings) =
        next.receivers := by
      rw [hreceivers, List.map_append, hcomplete, List.map_cons, List.map_nil,
        Receiver.completed_completed]
    obtain ⟨hg, hi, hr⟩ := ih (hnextGlobal.trans hglobal) hnextComplete hrest
    refine ⟨hg.trans hnextGlobal, hi.trans hinhibit, ?_⟩
    rw [hr, hreceivers, List.append_assoc]
    rfl

variable {channels : List (Channel B)} {matchers : List (String × List String)}

/-- The rebuilt configuration has the receivers of the channels, and no inhibit rules. -/
theorem rebuildConfig_eq_some {c : Config G B}
    (h : rebuildConfig env settings channels matchers = some c) :
    c.global = env.withDefaults settings.global ∧ c.inhibitRules = [] ∧
      c.receivers = receiversOf env settings channels := by
  obtain ⟨made, hmade, hmatched⟩ := Option.bind_eq_some_iff.1 h
  obtain ⟨fresh, hfresh, hfold⟩ := Option.bind_eq_some_iff.1 hmade
  rw [newDefaultConfig] at hfresh
  split at hfresh
  · obtain rfl := Option.some.inj hfresh
    obtain ⟨hglobal, hinhibit, hreceivers⟩ := foldlM_createReceiver channels rfl
      (by rw [List.map_cons, completed_default, List.map_nil]) hfold
    -- The rules of the table only change routes.
    have hkeep : ∀ (ms : List (String × List String)) (c c' : Config G B),
        ms.foldlM (fun c m => c.createRuleIDMatcher env m.1 m.2) c = some c' →
          c'.receivers = c.receivers ∧ c'.inhibitRules = c.inhibitRules ∧
            c'.global = c.global := by
      intro ms
      induction ms with
      | nil =>
        intro c c' hc
        obtain rfl := Option.some.inj hc
        exact ⟨rfl, rfl, rfl⟩
      | cons m ms ih =>
        intro c c' hc
        rw [List.foldlM_cons] at hc
        obtain ⟨next, hnext, hrest⟩ := Option.bind_eq_some_iff.1 hc
        obtain ⟨hr, hi, hg⟩ := createRuleIDMatcher_eq_some hnext
        obtain ⟨hr', hi', hg'⟩ := ih next c' hrest
        exact ⟨hr'.trans hr, hi'.trans hi, hg'.trans hg⟩
    obtain ⟨hr, hi, hg⟩ := hkeep matchers made c hmatched
    exact ⟨hg.trans hglobal, hi.trans hinhibit, hr.trans hreceivers⟩
  · cases hfresh

/-- The hash of the stored configuration, before or after the overlay, is that of the rebuilt
one. -/
def HashesMeet (env : ConfigEnv G B H) (settings : ServiceConfig G) (s : ConfigStore G B)
    (channels : List (Channel B)) (matchers : List (String × List String)) : Prop :=
  ∃ rebuilt, rebuildConfig env settings channels matchers = some rebuilt ∧
    (env.hash s.config = env.hash rebuilt ∨
      ∃ incoming, getConfig env settings s.config = some incoming ∧
        env.hash incoming = env.hash rebuilt)

/-- A start keeps the stored inhibit rules, and the stored receivers are those of the channels. -/
structure KeepsConfig (env : ConfigEnv G B H) (settings : ServiceConfig G)
    (s s' : ConfigStore G B) : Prop where
  inhibitRules : s'.config.inhibitRules = s.config.inhibitRules
  receivers : s'.config.receivers.Perm (receiversOf env settings s.channels)

theorem getConfig_eq_some {c c' : Config G B} (h : getConfig env settings c = some c') :
    c'.receivers = c.receivers ∧ c'.inhibitRules = c.inhibitRules ∧
      c'.global = env.withDefaults settings.global := by
  rw [getConfig, Config.setRouteConfig] at h
  split at h
  · obtain rfl := Option.some.inj h
    exact ⟨rfl, rfl, rfl⟩
  · cases h

variable [DecidableEq H]

/-- What a start stores: what was stored with the receivers and inhibit rules it had, when the
hashes meet, else the rebuilt configuration. -/
theorem newServer_cases (h : newServer env settings s channels matchers = some s') :
    s'.channels = s.channels ∧
      ((HashesMeet env settings s channels matchers ∧
          s'.config.inhibitRules = s.config.inhibitRules ∧
          s'.config.receivers = s.config.receivers ∧
          (s'.config.global = s.config.global ∨
            s'.config.global = env.withDefaults settings.global)) ∨
        (¬ HashesMeet env settings s channels matchers ∧
          rebuildConfig env settings channels matchers = some s'.config)) := by
  obtain ⟨incoming, hincoming, hstart⟩ := Option.bind_eq_some_iff.1 h
  obtain ⟨config, hselect, rfl⟩ := Option.map_eq_some_iff.1 hstart
  obtain ⟨rebuilt, hrebuilt, rfl⟩ := Option.map_eq_some_iff.1 hselect
  obtain ⟨hreceivers, hinhibit, hglobal⟩ := getConfig_eq_some hincoming
  have hmeet : HashesMeet env settings s channels matchers ↔
      env.hash s.config = env.hash rebuilt ∨ env.hash incoming = env.hash rebuilt := by
    rw [HashesMeet, hrebuilt, hincoming]
    constructor
    · rintro ⟨r, hr, hstored | ⟨i, hi, hsame⟩⟩
      · rw [Option.some.inj hr]
        exact Or.inl hstored
      · rw [Option.some.inj hr, Option.some.inj hi]
        exact Or.inr hsame
    · rintro (hstored | hsame)
      · exact ⟨rebuilt, rfl, Or.inl hstored⟩
      · exact ⟨rebuilt, rfl, Or.inr ⟨incoming, rfl, hsame⟩⟩
  rw [hmeet]
  by_cases hsame : env.hash incoming = env.hash rebuilt
  · rw [if_neg (not_not.2 hsame)]
    split
    · exact ⟨rfl, Or.inl ⟨Or.inr hsame, rfl, rfl, Or.inl rfl⟩⟩
    · exact ⟨rfl, Or.inl ⟨Or.inr hsame, hinhibit, hreceivers, Or.inr hglobal⟩⟩
  · rw [if_pos hsame]
    split
    · rename_i hstored
      exact ⟨rfl, Or.inl ⟨Or.inl hstored, rfl, rfl, Or.inl rfl⟩⟩
    · rename_i hstored
      exact ⟨rfl, Or.inr ⟨fun h => h.elim hstored hsame, hrebuilt⟩⟩

/-- A start keeps configuration and channels in agreement. -/
theorem agree_newServer (h : Agree env settings s) (hlisted : channels.Perm s.channels)
    (hstart : newServer env settings s channels matchers = some s') : Agree env settings s' := by
  obtain ⟨hchannels, hcases⟩ := newServer_cases hstart
  rcases hcases with ⟨-, -, hreceivers, hglobal⟩ | ⟨-, hrebuilt⟩
  · refine ⟨?_, ?_, hchannels ▸ h.named, hchannels ▸ h.names, hchannels ▸ h.ids⟩
    · rcases hglobal with hsame | hset
      · exact hsame.trans h.global
      · exact hset
    · rw [hreceivers, hchannels]
      exact h.receivers
  · obtain ⟨hglobal, -, hreceivers⟩ := rebuildConfig_eq_some hrebuilt
    refine ⟨hglobal, ?_, hchannels ▸ h.named, hchannels ▸ h.names, hchannels ▸ h.ids⟩
    rw [hreceivers, hchannels, receiversOf, receiversOf]
    exact (hlisted.map _).cons _

end Start

/-! ## Runs -/

/-- The configuration of a new organisation agrees with having no channels. -/
theorem agree_default {c : Config G B}
    (h : newDefaultConfig env settings.global settings.route = some c) :
    Agree env settings ⟨c, []⟩ := by
  rw [newDefaultConfig] at h
  split at h
  · obtain rfl := Option.some.inj h
    exact ⟨rfl, List.Perm.refl _, nofun, List.nodup_singleton _, List.nodup_nil⟩
  · cases h

section Runs

variable [DecidableEq B] [DecidableEq H] (regexpMatches : String → String → Bool)

/-- Configuration and channels agree after every run of calls and starts. -/
theorem agree_reachable {c : Config G B}
    (hdefault : newDefaultConfig env settings.global settings.route = some c)
    (calls : List (ServiceCall B)) (s : ConfigStore G B)
    (hrun : exec (serviceStep env settings regexpMatches) ⟨c, []⟩ calls = some s) :
    Agree env settings s := by
  apply exec_invariant (I := fun _ s => Agree env settings s) (agree_default env settings hdefault)
    _ calls s hrun
  intro _ m call t hm hstep
  cases call with
  | provider call => exact agree_providerStep regexpMatches hm hstep
  | start channels matchers =>
    rw [serviceStep] at hstep
    split at hstep
    · rename_i hlisted
      obtain rfl := Option.some.inj hstep
      cases hstart : newServer env settings m channels matchers with
      | none => exact hm
      | some after => exact agree_newServer hm (List.isPerm_iff.1 hlisted) hstart
    · cases hstep

/-- After every run of calls and starts, the next start keeps the inhibit rules and the receivers
exactly when there are no inhibit rules, or the hash of the stored configuration meets that of the
rebuilt one, which has none. -/
theorem newServer_keeps_iff {c : Config G B}
    (hdefault : newDefaultConfig env settings.global settings.route = some c)
    (calls : List (ServiceCall B)) (s s' : ConfigStore G B)
    (hrun : exec (serviceStep env settings regexpMatches) ⟨c, []⟩ calls = some s)
    (channels : List (Channel B)) (hlisted : channels.Perm s.channels)
    (matchers : List (String × List String))
    (hstart : newServer env settings s channels matchers = some s') :
    KeepsConfig env settings s s' ↔
      s.config.inhibitRules = [] ∨ HashesMeet env settings s channels matchers := by
  have hagree := agree_reachable env settings regexpMatches hdefault calls s hrun
  have hafter := agree_newServer hagree hlisted hstart
  obtain ⟨hchannels, hcases⟩ := newServer_cases hstart
  have hreceivers : s'.config.receivers.Perm (receiversOf env settings s.channels) :=
    hchannels ▸ hafter.receivers
  rcases hcases with ⟨hmeet, hinhibit, -, -⟩ | ⟨hnot, hrebuilt⟩
  · exact ⟨fun _ => Or.inr hmeet, fun _ => ⟨hinhibit, hreceivers⟩⟩
  · -- The rebuilt configuration has no inhibit rules.
    obtain ⟨-, hnone, -⟩ := rebuildConfig_eq_some hrebuilt
    constructor
    · exact fun hkeeps => Or.inl (hkeeps.inhibitRules.symm.trans hnone)
    · rintro (hempty | hmeet)
      · exact ⟨hnone.trans hempty.symm, hreceivers⟩
      · exact absurd hmeet hnot

end Runs

/-! ## A start that erases inhibit rules -/

/-- Upstream accepts everything, and a configuration is its own hash. -/
def plainConfigEnv : ConfigEnv Unit String (Config Unit String) where
  withDefaults := id
  complete _ body := body
  complete_complete _ _ := rfl
  empty := ""
  complete_empty _ := rfl
  accepts _ := true
  acceptsRoute _ := true
  channelType body := if body = "" then none else some "webhook"
  compiles _ := true
  hash := id

def plainSettings : ServiceConfig Unit := ⟨(), ⟨["ruleId"], 300, 30, 14400⟩⟩

/-- The configuration of a new organisation. -/
def freshConfig : Config Unit String := ⟨(), plainSettings.route, [], [⟨defaultReceiverName, ""⟩], []⟩

def webhook : Receiver String := ⟨"ops", "https://hooks.local/ops"⟩

/-- The inhibit rule of a rule with two thresholds. -/
def criticalOverWarning : InhibitRule :=
  ⟨[.equal "threshold.name" "critical", .equal "ruleId" "r1"],
    [.equal "threshold.name" "warning", .equal "ruleId" "r1"], ["ruleId"]⟩

/-- A channel, and the inhibit rules of a rule. -/
def configured : ConfigStore Unit String :=
  createInhibitRules ⟨{ freshConfig with
      routes := [newRouteFromReceiver webhook]
      receivers := [⟨defaultReceiverName, ""⟩, webhook] },
    [⟨"c1", "ops", "webhook", webhook⟩]⟩ [criticalOverWarning]

/-- The inhibit rules of a rule are gone after a start. -/
theorem newServer_erases_inhibitRules :
    ∃ s s', exec (serviceStep plainConfigEnv plainSettings fun _ _ => false) ⟨freshConfig, []⟩
        [.provider (.createChannel webhook "c1"),
          .provider (.createInhibitRules [criticalOverWarning])] = some s ∧
      newServer plainConfigEnv plainSettings s s.channels [] = some s' ∧
      ¬ KeepsConfig plainConfigEnv plainSettings s s' := by
  refine ⟨configured, { configured with config := { configured.config with inhibitRules := [] } },
    by decide +kernel, by decide +kernel, ?_⟩
  intro hkeeps
  have herased : ([] : List InhibitRule) = [criticalOverWarning] := hkeeps.inhibitRules
  cases herased

theorem newServer_keeps_iff_configured :
    KeepsConfig plainConfigEnv plainSettings configured
        { configured with config := { configured.config with inhibitRules := [] } } ↔
      configured.config.inhibitRules = [] ∨
        HashesMeet plainConfigEnv plainSettings configured configured.channels [] :=
  newServer_keeps_iff plainConfigEnv plainSettings (fun _ _ => false) (c := freshConfig) rfl
    [.provider (.createChannel webhook "c1"),
      .provider (.createInhibitRules [criticalOverWarning])] configured _ (by decide +kernel)
    configured.channels (List.Perm.refl _) [] (by decide +kernel)

end Signoz.Alertmanager
