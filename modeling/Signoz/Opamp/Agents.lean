import Mathlib.Data.List.Nodup
import Mathlib.Data.List.Perm.Basic

/-!
# Connected agents

The rollout of a config change in `opamp/model/agents.go`: `RecommendLatestConfigToAll` asks the
provider for the config of each connected agent and sends it to the agents that run another one.

`agentsById` is a map. A call ranges over it in an order of its own, which is a parameter here.
-/

namespace Signoz.Opamp

/-- `AgentRemoteConfig`: the body of the collector's config file, and its hash. -/
structure AgentRemoteConfig where
  body : String
  configHash : String

/-- `Agent`, with the config that it runs. -/
structure Agent (Org : Type) where
  agentID : String
  orgID : Org
  config : String
  remoteConfig : Option AgentRemoteConfig

/-- `agentsById`. -/
structure Agents (Org : Type) where
  agentsById : List (Agent Org)
  nodup : (agentsById.map Agent.agentID).Nodup

/-- What a rollout does outside of the agents. -/
inductive Effect (Org : Type) where
  | sendToAgent (agentID : String) (remoteConfig : AgentRemoteConfig)
  | listenToConfigUpdate (orgID : Org) (agentID hash : String)

/-- `RecommendAgentConfig` of `AgentConfigProvider`: a config with its id for an org and the
config that an agent runs. -/
abbrev AgentConfigProvider (Org : Type) := Org → String → Except String (String × String)

/-- The end of a rollout: the agents in the order of the call, its effects and its result. -/
structure Rollout (Org : Type) where
  agents : List (Agent Org)
  effects : List (Effect Org)
  result : Except String Unit

section Rollout

variable {Org : Type} (provider : AgentConfigProvider Org)

/-- `RecommendLatestConfigToAll`, in an order of the agents. -/
def recommendLatestConfigToAll : List (Agent Org) → Rollout Org
  | [] => ⟨[], [], .ok ()⟩
  | agent :: agents =>
    match provider agent.orgID agent.config with
    | .error err =>
      ⟨agent :: agents, [],
        .error ("could not generate conf recommendation for " ++ agent.agentID ++ ": " ++ err)⟩
    | .ok (newConfig, confId) =>
      -- the source returns here, it does not go on to the next agent
      if newConfig = agent.config then ⟨agent :: agents, [], .ok ()⟩
      else
        let rest := recommendLatestConfigToAll agents
        ⟨{ agent with remoteConfig := some ⟨newConfig, confId⟩ } :: rest.agents,
          .sendToAgent agent.agentID ⟨newConfig, confId⟩ ::
            .listenToConfigUpdate agent.orgID agent.agentID confId :: rest.effects,
          rest.result⟩

/-- The remote configs that effects send to an agent. -/
def sentTo (agentID : String) : List (Effect Org) → List AgentRemoteConfig
  | [] => []
  | .sendToAgent id remoteConfig :: effects =>
    if id = agentID then remoteConfig :: sentTo agentID effects else sentTo agentID effects
  | .listenToConfigUpdate _ _ _ :: effects => sentTo agentID effects

/-- The provider recommends the config that the agent runs. -/
def UpToDate (agent : Agent Org) : Prop :=
  ∃ confId, provider agent.orgID agent.config = .ok (agent.config, confId)

/-- The provider recommends another config. -/
def Outdated (agent : Agent Org) : Prop :=
  ∃ newConfig confId, provider agent.orgID agent.config = .ok (newConfig, confId) ∧
    newConfig ≠ agent.config

/-- Each agent with another config than the recommended one is sent this one with its id, once,
and nothing is sent to the others. -/
structure ReachesEveryAgent (agents : List (Agent Org)) (effects : List (Effect Org)) : Prop where
  outdated : ∀ agent ∈ agents, ∀ newConfig confId,
    provider agent.orgID agent.config = .ok (newConfig, confId) → newConfig ≠ agent.config →
      sentTo agent.agentID effects = [⟨newConfig, confId⟩]
  others : ∀ agentID, (∀ agent ∈ agents, agent.agentID = agentID → ¬ Outdated provider agent) →
    sentTo agentID effects = []

/-! ## One agent of a rollout -/

variable {provider}

attribute [local simp] recommendLatestConfigToAll sentTo

theorem recommendLatestConfigToAll_error {agent : Agent Org} {err : String}
    (agents : List (Agent Org)) (h : provider agent.orgID agent.config = .error err) :
    (recommendLatestConfigToAll provider (agent :: agents)).result =
      .error ("could not generate conf recommendation for " ++ agent.agentID ++ ": " ++ err) := by
  simp only [recommendLatestConfigToAll, h]

theorem recommendLatestConfigToAll_upToDate {agent : Agent Org} (agents : List (Agent Org))
    (h : UpToDate provider agent) :
    recommendLatestConfigToAll provider (agent :: agents) = ⟨agent :: agents, [], .ok ()⟩ := by
  obtain ⟨confId, hprovider⟩ := h
  simp only [recommendLatestConfigToAll, hprovider, if_pos]

theorem recommendLatestConfigToAll_outdated {agent : Agent Org} (agents : List (Agent Org))
    {newConfig confId : String} (h : provider agent.orgID agent.config = .ok (newConfig, confId))
    (hne : newConfig ≠ agent.config) :
    (recommendLatestConfigToAll provider (agent :: agents)).effects =
        .sendToAgent agent.agentID ⟨newConfig, confId⟩ ::
          .listenToConfigUpdate agent.orgID agent.agentID confId ::
            (recommendLatestConfigToAll provider agents).effects ∧
      (recommendLatestConfigToAll provider (agent :: agents)).result =
        (recommendLatestConfigToAll provider agents).result := by
  simp only [recommendLatestConfigToAll, h, if_neg hne, and_self]

theorem not_outdated_of_upToDate {agent : Agent Org} (h : UpToDate provider agent) :
    ¬ Outdated provider agent := by
  rintro ⟨newConfig, confId, hprovider, hne⟩
  obtain ⟨confId', hprovider'⟩ := h
  rw [hprovider'] at hprovider
  cases hprovider
  exact hne rfl

/-! ## A rollout -/

/-- Nothing is sent to an agent that the call does not range over. -/
theorem sentTo_of_not_mem {agentID : String} (agents : List (Agent Org))
    (h : ∀ agent ∈ agents, agent.agentID = agentID → ¬ Outdated provider agent) :
    sentTo agentID (recommendLatestConfigToAll provider agents).effects = [] := by
  induction agents with
  | nil => rfl
  | cons agent agents ih =>
    have hrest := ih fun a ha => h a (List.mem_cons_of_mem _ ha)
    cases hprovider : provider agent.orgID agent.config with
    | error err => simp only [recommendLatestConfigToAll, hprovider, sentTo]
    | ok recommended =>
      obtain ⟨newConfig, confId⟩ := recommended
      by_cases hsame : newConfig = agent.config
      · subst hsame
        rw [recommendLatestConfigToAll_upToDate agents ⟨confId, hprovider⟩]
        rfl
      · have hid : agent.agentID ≠ agentID := by
          intro hid
          exact h agent List.mem_cons_self hid ⟨newConfig, confId, hprovider, hsame⟩
        rw [(recommendLatestConfigToAll_outdated agents hprovider hsame).1]
        simpa only [sentTo, if_neg hid] using hrest

/-- Up to the first agent that is up to date each agent is sent its recommendation. -/
theorem sentTo_of_pairwise {agents : List (Agent Org)}
    (hnodup : (agents.map Agent.agentID).Nodup)
    (hok : (recommendLatestConfigToAll provider agents).result = .ok ())
    (horder : agents.Pairwise fun a b => UpToDate provider a → ¬ Outdated provider b) :
    ∀ agent ∈ agents, ∀ newConfig confId,
      provider agent.orgID agent.config = .ok (newConfig, confId) → newConfig ≠ agent.config →
        sentTo agent.agentID (recommendLatestConfigToAll provider agents).effects =
          [⟨newConfig, confId⟩] := by
  induction agents with
  | nil => exact fun agent hmem => absurd hmem List.not_mem_nil
  | cons first agents ih =>
    rw [List.map_cons, List.nodup_cons] at hnodup
    rw [List.pairwise_cons] at horder
    intro agent hmem newConfig confId hprovider hne
    cases hfirst : provider first.orgID first.config with
    | error err =>
      rw [recommendLatestConfigToAll_error agents hfirst] at hok
      cases hok
    | ok recommended =>
      obtain ⟨firstConfig, firstId⟩ := recommended
      by_cases hsame : firstConfig = first.config
      · -- the call ends at `first`, so no agent from here on may be outdated
        subst hsame
        have hup : UpToDate provider first := ⟨firstId, hfirst⟩
        have hout : Outdated provider agent := ⟨newConfig, confId, hprovider, hne⟩
        rcases List.mem_cons.1 hmem with rfl | hmem
        · exact absurd hout (not_outdated_of_upToDate hup)
        · exact absurd hout (horder.1 agent hmem hup)
      · obtain ⟨heffects, hresult⟩ :=
          recommendLatestConfigToAll_outdated agents hfirst hsame
        rw [heffects]
        rcases List.mem_cons.1 hmem with rfl | hmem
        · rw [hprovider] at hfirst
          cases hfirst
          have hrest : sentTo agent.agentID
              (recommendLatestConfigToAll provider agents).effects = [] := by
            apply sentTo_of_not_mem
            intro other hother hid
            exact absurd (hid ▸ List.mem_map_of_mem hother) hnodup.1
          simp only [sentTo, if_pos, hrest]
        · have hid : first.agentID ≠ agent.agentID := by
            intro hid
            exact hnodup.1 (hid ▸ List.mem_map_of_mem hmem)
          simp only [sentTo, if_neg hid]
          exact ih hnodup.2 (hresult ▸ hok) horder.2 agent hmem newConfig confId hprovider hne

/-- If every outdated agent is sent a config, none of them comes after one that is up to date. -/
theorem pairwise_of_sentTo {agents : List (Agent Org)}
    (hsent : ∀ agent ∈ agents, Outdated provider agent →
      sentTo agent.agentID (recommendLatestConfigToAll provider agents).effects ≠ [])
    (hnodup : (agents.map Agent.agentID).Nodup)
    (hok : (recommendLatestConfigToAll provider agents).result = .ok ()) :
    agents.Pairwise fun a b => UpToDate provider a → ¬ Outdated provider b := by
  induction agents with
  | nil => exact List.Pairwise.nil
  | cons first agents ih =>
    rw [List.map_cons, List.nodup_cons] at hnodup
    cases hfirst : provider first.orgID first.config with
    | error err =>
      rw [recommendLatestConfigToAll_error agents hfirst] at hok
      cases hok
    | ok recommended =>
      obtain ⟨firstConfig, firstId⟩ := recommended
      by_cases hsame : firstConfig = first.config
      · subst hsame
        have hup : UpToDate provider first := ⟨firstId, hfirst⟩
        have hnone : ∀ agent ∈ agents, ¬ Outdated provider agent := by
          intro agent hmem hout
          apply hsent agent (List.mem_cons_of_mem _ hmem) hout
          rw [recommendLatestConfigToAll_upToDate agents hup]
          rfl
        refine List.pairwise_cons.2 ⟨fun b hb _ => hnone b hb, ?_⟩
        exact List.pairwise_of_forall_mem_list fun a _ b hb _ => hnone b hb
      · obtain ⟨heffects, hresult⟩ :=
          recommendLatestConfigToAll_outdated agents hfirst hsame
        refine List.pairwise_cons.2 ⟨?_, ih ?_ hnodup.2 (hresult ▸ hok)⟩
        · rintro b _ ⟨confId, hup⟩
          rw [hfirst] at hup
          cases hup
          exact absurd rfl hsame
        · intro agent hmem hout
          have hid : first.agentID ≠ agent.agentID := by
            intro hid
            exact hnodup.1 (hid ▸ List.mem_map_of_mem hmem)
          have h := hsent agent (List.mem_cons_of_mem _ hmem) hout
          rw [heffects] at h
          simpa only [sentTo, if_neg hid] using h

/-- A rollout without an error reaches every agent exactly when, in the order of the call, no
outdated agent comes after one that is up to date. -/
theorem config_reaches_every_agent (provider : AgentConfigProvider Org) (agents : Agents Org)
    (order : List (Agent Org)) (horder : order.Perm agents.agentsById)
    (hok : (recommendLatestConfigToAll provider order).result = .ok ()) :
    ReachesEveryAgent provider agents.agentsById
        (recommendLatestConfigToAll provider order).effects ↔
      order.Pairwise fun a b => UpToDate provider a → ¬ Outdated provider b := by
  have hnodup : (order.map Agent.agentID).Nodup :=
    (horder.map Agent.agentID).nodup_iff.2 agents.nodup
  constructor
  · intro h
    apply pairwise_of_sentTo _ hnodup hok
    rintro agent hmem ⟨newConfig, confId, hprovider, hne⟩
    rw [h.outdated agent (horder.mem_iff.1 hmem) newConfig confId hprovider hne]
    exact List.cons_ne_nil _ _
  · intro h
    refine ⟨?_, ?_⟩
    · intro agent hmem
      exact sentTo_of_pairwise hnodup hok h agent (horder.mem_iff.2 hmem)
    · intro agentID hothers
      apply sentTo_of_not_mem
      exact fun agent hmem => hothers agent (horder.mem_iff.1 hmem)

/-- A provider that recommends the config `new`. -/
def newProvider : AgentConfigProvider Unit := fun _ _ => .ok ("new", "log_pipelines:2")

/-- An agent that runs the config. -/
def sampleAgent (agentID config : String) : Agent Unit := ⟨agentID, (), config, none⟩

def sampleAgents : Agents Unit :=
  ⟨[sampleAgent "a" "new", sampleAgent "b" "old"], by decide⟩

/-- With the outdated agent first, it is reached. -/
theorem config_reaches_outdated_first :
    ReachesEveryAgent newProvider sampleAgents.agentsById
      (recommendLatestConfigToAll newProvider
        [sampleAgent "b" "old", sampleAgent "a" "new"]).effects := by
  refine (config_reaches_every_agent newProvider sampleAgents _ (List.Perm.swap _ _ _) rfl).2 ?_
  refine List.pairwise_pair.2 ?_
  rintro ⟨confId, hup⟩
  simp [newProvider, sampleAgent] at hup

/-- With the agent that is up to date first, the call succeeds and sends nothing. -/
theorem config_misses_outdated_agent :
    (recommendLatestConfigToAll newProvider sampleAgents.agentsById).result = .ok () ∧
      (recommendLatestConfigToAll newProvider sampleAgents.agentsById).effects = [] ∧
      ¬ ReachesEveryAgent newProvider sampleAgents.agentsById
        (recommendLatestConfigToAll newProvider sampleAgents.agentsById).effects := by
  refine ⟨rfl, rfl, ?_⟩
  intro h
  have hsent := h.outdated (sampleAgent "b" "old") (by simp [sampleAgents]) "new"
    "log_pipelines:2" rfl (by decide)
  cases hsent

end Rollout

end Signoz.Opamp
