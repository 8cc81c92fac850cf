import Mathlib.Data.List.Nodup
import Mathlib.Data.List.Range
import Signoz.Lib.Runs

/-!
# Versions of agent configs

`agentConf/db.go`: the table `agent_config_version` with its unique index on org, version and
element type, the query for the latest version of an element type, and how `insertConfig` numbers
a new one. `StartNewVersion` is the only writer of versions; the deploy status of a row changes
between its calls. Every statement of a call can fail by itself, the `DELETE`s that clean up after a
failed insert too (`StorageFaults`).

The inner `SELECT` of `GetLatestVersion` ranges over the whole table, and `acv` in its `WHERE` is
the row of the outer one.
-/

namespace Signoz.AgentConf

/-! ## The tables -/

/-- `ElementTypeLogPipelines`. -/
def elementTypeLogPipelines : String := "log_pipelines"

/-- `DeployStatus`. -/
inductive DeployStatus where
  | pendingDeploy
  | deploying
  | deployed
  | deployInitiated
  | deployFailed
  | unknown
deriving DecidableEq

/-- The columns of the unique index `element_version_org_idx`. -/
structure VersionKey where
  orgID : String
  elementType : String
  version : Int
deriving DecidableEq

/-- A row of `agent_config_version`. -/
structure AgentConfigVersion extends VersionKey where
  id : Nat
  deployStatus : DeployStatus
  deployResult : String
  hash : String
  config : String
deriving DecidableEq

/-- A row of `agent_config_element`; its columns are a unique index. -/
structure AgentConfigElement where
  elementID : String
  elementType : String
  versionID : Nat
deriving DecidableEq

/-- The tables. Ids below `nextID` have been generated. -/
structure Repo where
  agentConfigVersion : List AgentConfigVersion
  agentConfigElement : List AgentConfigElement
  nextID : Nat

/-- `NewAgentConfigVersion`, with a generated id. -/
def newAgentConfigVersion (orgID elementType : String) (id : Nat) : AgentConfigVersion :=
  ⟨⟨orgID, elementType, 0⟩, id, .pendingDeploy, "", "", "\x7b\x7d"⟩

/-- The statements of a call of `insertConfig` that fail, whatever the tables hold. An element that
is given twice is rejected the second time anyway, so its `INSERT` is told by its name. -/
structure StorageFaults where
  getLatestVersion : Bool
  insertVersion : Bool
  insertElement : String → Bool
  deleteElements : Bool
  deleteVersion : Bool

/-- Nothing fails but what the unique indexes reject. -/
def StorageFaults.none : StorageFaults := ⟨false, false, fun _ => false, false, false⟩

/-- `IncrementVersion`. -/
def AgentConfigVersion.incrementVersion (c : AgentConfigVersion) (lastVersion : Int) :
    AgentConfigVersion :=
  { c with version := lastVersion + 1 }

namespace Repo

/-- `GetLatestVersion`. -/
def getLatestVersion (repo : Repo) (orgID elementType : String) : Option AgentConfigVersion :=
  repo.agentConfigVersion.find? fun acv =>
    acv.elementType = elementType && acv.orgID = orgID &&
      ((repo.agentConfigVersion.filter fun _ => acv.elementType = elementType).map
        fun row => row.version).max? = some acv.version

/-- `INSERT` of a version; `none` when it fails or the index rejects it. -/
def insertVersion (repo : Repo) (faults : StorageFaults) (c : AgentConfigVersion) : Option Repo :=
  if faults.insertVersion ∨ repo.agentConfigVersion.any fun row => row.toVersionKey = c.toVersionKey
  then none
  else some { repo with agentConfigVersion := repo.agentConfigVersion ++ [c] }

/-- The `INSERT`s of the elements of a version, up to the first that fails or the index rejects. -/
def insertElements (repo : Repo) (faults : StorageFaults) (c : AgentConfigVersion) :
    List String → Repo × Bool
  | [] => (repo, true)
  | e :: elements =>
    let row : AgentConfigElement := ⟨e, c.elementType, c.id⟩
    if faults.insertElement e ∨ row ∈ repo.agentConfigElement then (repo, false)
    else
      insertElements { repo with agentConfigElement := repo.agentConfigElement ++ [row] } faults c
        elements

/-- The `DELETE`s after a failed insert. One that fails is only logged. -/
def removeVersion (repo : Repo) (faults : StorageFaults) (orgID : String) (id : Nat) : Repo :=
  { repo with
    agentConfigElement :=
      if faults.deleteElements then repo.agentConfigElement
      else repo.agentConfigElement.filter fun e => e.versionID ≠ id
    agentConfigVersion :=
      if faults.deleteVersion then repo.agentConfigVersion
      else repo.agentConfigVersion.filter fun c => !(c.id = id && c.orgID = orgID) }

/-- The version that `insertConfig` gives a config. -/
def numbered (repo : Repo) (orgID : String) (c : AgentConfigVersion) : AgentConfigVersion :=
  match repo.getLatestVersion orgID c.elementType with
  | some configVersion => c.incrementVersion configVersion.version
  | none => { c with version := 1 }

/-- `insertConfig`. -/
def insertConfig (repo : Repo) (faults : StorageFaults) (orgID : String) (c : AgentConfigVersion)
    (elements : List String) : Repo × Except String AgentConfigVersion :=
  if c.elementType = "" then
    (repo, .error "element type is required for creating agent config version")
  else if elements = [] ∧ c.elementType ≠ elementTypeLogPipelines then
    (repo, .error "config must have atleast one element")
  else if c.version ≠ 0 then
    (repo, .error "user defined versions are not supported in the agent config")
  else if faults.getLatestVersion then (repo, .error "failed to get latest config version")
  else
    let c := repo.numbered orgID c
    match repo.insertVersion faults c with
    | none => (repo.removeVersion faults orgID c.id, .error "failed to insert config version")
    | some inserted =>
      match inserted.insertElements faults c elements with
      | (inserted, false) =>
        (inserted.removeVersion faults orgID c.id, .error "failed to insert config element")
      | (inserted, true) => (inserted, .ok c)

/-- `StartNewVersion`, up to the notification of the subscribers. -/
def startNewVersion (repo : Repo) (faults : StorageFaults) (orgID elementType : String)
    (elementIDs : List String) : Repo × Except String AgentConfigVersion :=
  insertConfig { repo with nextID := repo.nextID + 1 } faults orgID
    (newAgentConfigVersion orgID elementType repo.nextID) elementIDs

/-- `UPDATE agent_config_version`. -/
def updateWhere (repo : Repo) (cond : AgentConfigVersion → Bool)
    (set : AgentConfigVersion → AgentConfigVersion) : Repo :=
  { repo with
    agentConfigVersion := repo.agentConfigVersion.map fun c => if cond c then set c else c }

/-- `updateDeployStatus`. -/
def updateDeployStatus (repo : Repo) (orgID elementType : String) (version : Int)
    (status : DeployStatus) (result lastHash lastconf : String) : Repo :=
  let lastHash := if lastHash.startsWith orgID then lastHash else orgID ++ lastHash
  repo.updateWhere (fun c => c.version = version && c.elementType = elementType && c.orgID = orgID)
    fun c =>
      { c with deployStatus := status, deployResult := result, hash := lastHash, config := lastconf }

/-- `updateDeployStatusByHash`. -/
def updateDeployStatusByHash (repo : Repo) (orgID confighash : String) (status : DeployStatus)
    (result : String) : Repo :=
  repo.updateWhere (fun c => c.hash = confighash && c.orgID = orgID) fun c =>
    { c with deployStatus := status, deployResult := result }

end Repo

/-! ## Runs -/

/-- What happens to the tables. In these runs only the indexes reject inserts. -/
inductive Op where
  | startNewVersion (orgID elementType : String) (elementIDs : List String)
  | updateDeployStatus (orgID elementType : String) (version : Int) (status : DeployStatus)
      (result lastHash lastconf : String)
  | updateDeployStatusByHash (orgID confighash : String) (status : DeployStatus)
      (result : String)

/-- The tables, and what the successful calls of `StartNewVersion` returned, in order. -/
structure System where
  repo : Repo
  returned : List VersionKey

def initial : System := ⟨⟨[], [], 0⟩, []⟩

def apply (s : System) : Op → System
  | .startNewVersion orgID elementType elementIDs =>
    match s.repo.startNewVersion .none orgID elementType elementIDs with
    | (repo, .ok c) => ⟨repo, s.returned ++ [c.toVersionKey]⟩
    | (repo, .error _) => ⟨repo, s.returned⟩
  | .updateDeployStatus orgID elementType version status result lastHash lastconf =>
    { s with
      repo := s.repo.updateDeployStatus orgID elementType version status result lastHash
        lastconf }
  | .updateDeployStatusByHash orgID confighash status result =>
    { s with repo := s.repo.updateDeployStatusByHash orgID confighash status result }

def step (s : System) (op : Op) : Option System := some (apply s op)

/-- The keys of one org and element type. -/
def history (keys : List VersionKey) (orgID elementType : String) : List VersionKey :=
  keys.filter fun k => k.orgID = orgID && k.elementType = elementType

/-- `1, …, n` for one org and element type. -/
def firstVersions (orgID elementType : String) (n : Nat) : List VersionKey :=
  (List.range n).map fun i : Nat => ⟨orgID, elementType, (i : Int) + 1⟩

/-- Versions are numbered per org and element type: the successful calls were given 1, 2, 3, … in
order, no two rows share a number, and the latest version is the newest one. -/
structure NumberedPerOrgAndType (s : System) : Prop where
  inOrder : ∀ orgID elementType, history s.returned orgID elementType =
    firstVersions orgID elementType (history s.returned orgID elementType).length
  unique : (s.repo.agentConfigVersion.map AgentConfigVersion.toVersionKey).Nodup
  latest : ∀ orgID elementType,
    (s.repo.getLatestVersion orgID elementType).map AgentConfigVersion.toVersionKey =
      (history s.returned orgID elementType).getLast?

/-- `StartNewVersion` refuses the call for what it is given: no element type, no elements where
there have to be some, or an element twice. -/
def Refused (elementType : String) (elementIDs : List String) : Prop :=
  elementType = "" ∨ (elementIDs = [] ∧ elementType ≠ elementTypeLogPipelines) ∨
    ¬ elementIDs.Nodup

/-- No other history is ahead of the called one or left behind by the call: each one that has
versions has as many as this one will have. -/
def KeepsPace (s : System) : Op → Prop
  | .startNewVersion orgID elementType elementIDs =>
    Refused elementType elementIDs ∨
      ∀ org type, (org, type) ≠ (orgID, elementType) → history s.returned org type ≠ [] →
        (history s.returned org type).length = (history s.returned orgID elementType).length + 1
  | _ => True

/-! ## Histories -/

variable {keys : List VersionKey} {orgID elementType : String}

theorem mem_history {k : VersionKey} :
    k ∈ history keys orgID elementType ↔
      k ∈ keys ∧ k.orgID = orgID ∧ k.elementType = elementType := by
  simp [history]

theorem history_append_self (keys : List VersionKey) (orgID elementType : String) (v : Int) :
    history (keys ++ [⟨orgID, elementType, v⟩]) orgID elementType =
      history keys orgID elementType ++ [⟨orgID, elementType, v⟩] := by
  simp [history]

theorem history_append_of_ne {org type orgID elementType : String} (v : Int)
    (h : (org, type) ≠ (orgID, elementType)) :
    history (keys ++ [⟨orgID, elementType, v⟩]) org type = history keys org type := by
  have hne : ¬ (orgID = org ∧ elementType = type) := by
    rintro ⟨rfl, rfl⟩
    exact h rfl
  simpa [history] using fun ho ht => hne ⟨ho, ht⟩

theorem firstVersions_succ (orgID elementType : String) (n : Nat) :
    firstVersions orgID elementType (n + 1) =
      firstVersions orgID elementType n ++ [⟨orgID, elementType, n + 1⟩] := by
  simp [firstVersions, List.range_succ]

@[simp] theorem length_firstVersions (orgID elementType : String) (n : Nat) :
    (firstVersions orgID elementType n).length = n := by
  simp [firstVersions]

theorem mem_firstVersions {n : Nat} {k : VersionKey} :
    k ∈ firstVersions orgID elementType n ↔
      k.orgID = orgID ∧ k.elementType = elementType ∧ 1 ≤ k.version ∧ k.version ≤ n := by
  rw [firstVersions, List.mem_map]
  constructor
  · rintro ⟨i, hi, rfl⟩
    rw [List.mem_range] at hi
    refine ⟨rfl, rfl, ?_, ?_⟩ <;> simp only <;> omega
  · obtain ⟨org, type, v⟩ := k
    rintro ⟨rfl, rfl, hone, hn⟩
    simp only at hone hn
    have hi : (v - 1).toNat < n := by omega
    refine ⟨(v - 1).toNat, List.mem_range.2 hi, ?_⟩
    simp only [VersionKey.mk.injEq, true_and]
    omega

theorem nodup_firstVersions (orgID elementType : String) (n : Nat) :
    (firstVersions orgID elementType n).Nodup := by
  rw [firstVersions]
  apply List.Nodup.map _ List.nodup_range
  intro i j hij
  simp only [VersionKey.mk.injEq, true_and] at hij
  omega

/-- What holds of the tables after any calls: the rows are what was returned, each history is
numbered, and ids are generated once. -/
structure Consistent (s : System) : Prop where
  rows : s.repo.agentConfigVersion.map AgentConfigVersion.toVersionKey = s.returned
  inOrder : ∀ orgID elementType, history s.returned orgID elementType =
    firstVersions orgID elementType (history s.returned orgID elementType).length
  versionIDs : ∀ c ∈ s.repo.agentConfigVersion, c.id < s.repo.nextID
  elementIDs : ∀ e ∈ s.repo.agentConfigElement, e.versionID < s.repo.nextID

section Consistent

variable {s : System}

theorem Consistent.mem_returned (h : Consistent s) {k : VersionKey} :
    k ∈ s.returned ↔
      1 ≤ k.version ∧ k.version ≤ (history s.returned k.orgID k.elementType).length := by
  have hmem : k ∈ s.returned ↔ k ∈ history s.returned k.orgID k.elementType := by
    simp [mem_history]
  rw [hmem, h.inOrder k.orgID k.elementType, mem_firstVersions, length_firstVersions]
  simp

theorem Consistent.exists_row (h : Consistent s) {k : VersionKey} (hk : k ∈ s.returned) :
    ∃ c ∈ s.repo.agentConfigVersion, c.toVersionKey = k := by
  rw [← h.rows] at hk
  exact List.mem_map.1 hk

theorem Consistent.key_mem (h : Consistent s) {c : AgentConfigVersion}
    (hc : c ∈ s.repo.agentConfigVersion) : c.toVersionKey ∈ s.returned :=
  h.rows ▸ List.mem_map_of_mem hc

/-- No two rows share a key: within a history the numbers are distinct. -/
theorem Consistent.nodup (h : Consistent s) : s.returned.Nodup := by
  rw [List.nodup_iff_count_le_one]
  intro k
  have hcount : s.returned.count k = (history s.returned k.orgID k.elementType).count k := by
    rw [history, List.count_filter (by simp)]
  rw [hcount, h.inOrder k.orgID k.elementType]
  exact List.nodup_iff_count_le_one.1 (nodup_firstVersions _ _ _) k

theorem Consistent.getLast (h : Consistent s) (orgID elementType : String) :
    (history s.returned orgID elementType).getLast? =
      if (history s.returned orgID elementType).length = 0 then none
      else some ⟨orgID, elementType, (history s.returned orgID elementType).length⟩ := by
  rw [h.inOrder orgID elementType, length_firstVersions]
  cases (history s.returned orgID elementType).length with
  | zero => rfl
  | succ n => simp [firstVersions_succ]

end Consistent

/-! ## The latest version -/

/-- The largest version of the table: the inner `SELECT`. -/
def maxVersion (repo : Repo) : Option Int :=
  (repo.agentConfigVersion.map fun row => row.version).max?

/-- `GetLatestVersion` finds a row of the org and type that has the largest version of the
table. -/
theorem getLatestVersion_eq (repo : Repo) (orgID elementType : String) :
    repo.getLatestVersion orgID elementType =
      repo.agentConfigVersion.find? fun acv =>
        acv.elementType = elementType && acv.orgID = orgID &&
          maxVersion repo = some acv.version := by
  rw [Repo.getLatestVersion]
  congr 1
  funext acv
  rw [Bool.eq_iff_iff]
  by_cases htype : acv.elementType = elementType
  · simp [htype]
    exact fun _ => Iff.rfl
  · simp [htype]

variable {s : System}

theorem Consistent.maxVersion_eq (h : Consistent s) {m : Int} :
    maxVersion s.repo = some m ↔
      (∃ k ∈ s.returned, k.version = m) ∧ ∀ k ∈ s.returned, k.version ≤ m := by
  have hrows : s.repo.agentConfigVersion.map (fun row => row.version) =
      s.returned.map VersionKey.version := by
    rw [← h.rows, List.map_map]
    rfl
  rw [maxVersion, hrows, List.max?_eq_some_iff]
  simp [List.mem_map]

/-- What `GetLatestVersion` finds: the newest version, where no history has more versions, and
nothing otherwise. -/
theorem Consistent.getLatestVersion (h : Consistent s) (orgID elementType : String) :
    (s.repo.getLatestVersion orgID elementType).map AgentConfigVersion.toVersionKey =
      if maxVersion s.repo = some ((history s.returned orgID elementType).length : Int) then
        some ⟨orgID, elementType, (history s.returned orgID elementType).length⟩
      else none := by
  rw [getLatestVersion_eq]
  split
  · rename_i hmax
    obtain ⟨⟨k, hk, hkv⟩, -⟩ := h.maxVersion_eq.1 hmax
    have hone := (h.mem_returned.1 hk).1
    have hmem : (⟨orgID, elementType, (history s.returned orgID elementType).length⟩ :
        VersionKey) ∈ s.returned := by
      rw [h.mem_returned]
      exact ⟨by simp only; omega, by simp⟩
    obtain ⟨c, hc, hkey⟩ := h.exists_row hmem
    cases hfind : s.repo.agentConfigVersion.find? _ with
    | none =>
      have hnone := List.find?_eq_none.1 hfind c hc
      rw [hmax] at hnone
      simp only [Bool.and_eq_true, decide_eq_true_eq, Option.some.injEq, not_and] at hnone
      have horg := congrArg VersionKey.orgID hkey
      have htype := congrArg VersionKey.elementType hkey
      have hversion := congrArg VersionKey.version hkey
      exact absurd hversion.symm (hnone ⟨htype, horg⟩)
    | some c' =>
      have hfound := List.find?_some hfind
      simp only [hmax, Bool.and_eq_true, decide_eq_true_eq, Option.some.injEq] at hfound
      obtain ⟨⟨htype, horg⟩, hversion⟩ := hfound
      obtain ⟨⟨o, t, v⟩, _⟩ := c'
      simp only at htype horg hversion
      subst htype horg
      simp [hversion]
  · rename_i hmax
    rw [Option.map_eq_none_iff, List.find?_eq_none]
    intro c hc hfound
    simp only [Bool.and_eq_true, decide_eq_true_eq] at hfound
    obtain ⟨⟨htype, horg⟩, hversion⟩ := hfound
    apply hmax
    have hlast := h.mem_returned.1 (h.key_mem hc)
    rw [horg, htype] at hlast
    -- the history's own newest version is at most the largest one, and the row has that one
    obtain ⟨-, hle⟩ := h.maxVersion_eq.1 hversion
    have hnewest : (⟨orgID, elementType, (history s.returned orgID elementType).length⟩ :
        VersionKey) ∈ s.returned := by
      rw [h.mem_returned]
      exact ⟨by simp only; omega, by simp⟩
    have := hle _ hnewest
    rw [hversion]
    congr 1
    simp only at this
    omega

/-- The histories that have versions all have the same number of them. -/
def SameLength (keys : List VersionKey) : Prop :=
  ∀ org type org' type', history keys org type ≠ [] → history keys org' type' ≠ [] →
    (history keys org type).length = (history keys org' type').length

/-- `GetLatestVersion` finds the newest version of every history exactly when no history has more
versions than another that has some. -/
theorem Consistent.latest_iff (h : Consistent s) :
    (∀ orgID elementType,
      (s.repo.getLatestVersion orgID elementType).map AgentConfigVersion.toVersionKey =
        (history s.returned orgID elementType).getLast?) ↔ SameLength s.returned := by
  constructor
  · intro hlatest
    have hmax : ∀ org type, history s.returned org type ≠ [] →
        maxVersion s.repo = some ((history s.returned org type).length : Int) := by
      intro org type hne
      have heq := hlatest org type
      rw [h.getLatestVersion, h.getLast, if_neg (mt List.length_eq_zero_iff.1 hne)] at heq
      by_contra hmax
      rw [if_neg hmax] at heq
      cases heq
    intro org type org' type' hne hne'
    have heq := (hmax org type hne).symm.trans (hmax org' type' hne')
    exact Int.ofNat.inj (Option.some.inj heq)
  · intro hsame orgID elementType
    rw [h.getLatestVersion, h.getLast]
    by_cases hzero : (history s.returned orgID elementType).length = 0
    · rw [if_pos hzero, if_neg]
      intro hmax
      obtain ⟨⟨k, hk, hkv⟩, -⟩ := h.maxVersion_eq.1 hmax
      have hone := (h.mem_returned.1 hk).1
      omega
    · rw [if_neg hzero, if_pos]
      rw [h.maxVersion_eq]
      constructor
      · refine ⟨⟨orgID, elementType, (history s.returned orgID elementType).length⟩, ?_, rfl⟩
        rw [h.mem_returned]
        exact ⟨by simp only; omega, by simp⟩
      · intro k hk
        have hne : history s.returned k.orgID k.elementType ≠ [] :=
          List.ne_nil_of_mem (mem_history.2 ⟨hk, rfl, rfl⟩)
        have heq := hsame k.orgID k.elementType orgID elementType hne
          (mt List.length_eq_zero_iff.2 hzero)
        have hle := (h.mem_returned.1 hk).2
        rwa [heq] at hle

/-! ## One call -/

/-- The rows of elements of a version. -/
def elementRows (c : AgentConfigVersion) (elements : List String) : List AgentConfigElement :=
  elements.map fun e => ⟨e, c.elementType, c.id⟩

/-- The inserts of elements add the rows of some of them and change nothing else, and of all where
they succeed. -/
theorem insertElements_adds (faults : StorageFaults) (c : AgentConfigVersion)
    (elements : List String) :
    ∀ repo : Repo, ∃ inserted, inserted <+: elements ∧
      (repo.insertElements faults c elements).1 =
        { repo with agentConfigElement := repo.agentConfigElement ++ elementRows c inserted } ∧
      ((repo.insertElements faults c elements).2 = true → inserted = elements) := by
  induction elements with
  | nil => exact fun repo => ⟨[], List.prefix_rfl, by simp [Repo.insertElements, elementRows]⟩
  | cons e elements ih =>
    intro repo
    rw [Repo.insertElements]
    split
    · exact ⟨[], List.nil_prefix, by simp [elementRows], nofun⟩
    · obtain ⟨inserted, hprefix, heq, hall⟩ := ih { repo with
        agentConfigElement := repo.agentConfigElement ++ [⟨e, c.elementType, c.id⟩] }
      refine ⟨e :: inserted, List.prefix_cons_inj e |>.2 hprefix, ?_, ?_⟩
      · rw [heq]
        simp [elementRows]
      · exact fun hok => congrArg (e :: ·) (hall hok)

/-- Without faults the inserts fail only on an element that is there or comes twice. -/
theorem insertElements_succeeds {faults : StorageFaults}
    (hfaults : ∀ e, faults.insertElement e = false) (c : AgentConfigVersion)
    (elements : List String) :
    ∀ repo : Repo, (repo.insertElements faults c elements).2 = true ↔
      elements.Nodup ∧ ∀ e ∈ elements,
        (⟨e, c.elementType, c.id⟩ : AgentConfigElement) ∉ repo.agentConfigElement := by
  induction elements with
  | nil => simp [Repo.insertElements]
  | cons e elements ih =>
    intro repo
    by_cases hmem : (⟨e, c.elementType, c.id⟩ : AgentConfigElement) ∈ repo.agentConfigElement
    · simp [Repo.insertElements, hmem]
    · simp only [Repo.insertElements, hfaults, Bool.false_eq_true, hmem, if_false, ih,
        List.nodup_cons, List.mem_append, List.mem_cons, List.not_mem_nil, or_false,
        forall_eq_or_imp, not_false_eq_true, true_and]
      constructor
      · rintro ⟨hnodup, hnew⟩
        refine ⟨⟨?_, hnodup⟩, fun e' he' => fun hold => hnew e' he' (.inl hold)⟩
        exact fun he => hnew e he (.inr rfl)
      · rintro ⟨⟨he, hnodup⟩, hnew⟩
        refine ⟨hnodup, ?_⟩
        rintro e' he' (hold | hsame)
        · exact hnew e' he' hold
        · cases hsame
          exact he he'

/-- What a failed call may leave: the rows from before are as they were, and a table has others, all
of the id, only if its `DELETE` failed. -/
structure LeavesAtMost (faults : StorageFaults) (before after : Repo) (id : Nat) : Prop where
  versions : after.agentConfigVersion.filter (fun c => c.id ≠ id) = before.agentConfigVersion
  elements : after.agentConfigElement.filter (fun e => e.versionID ≠ id) =
    before.agentConfigElement
  versionsRemoved : faults.deleteVersion = false →
    after.agentConfigVersion = before.agentConfigVersion
  elementsRemoved : faults.deleteElements = false →
    after.agentConfigElement = before.agentConfigElement

theorem filter_append_ne {α : Type} {id : α → Nat} {n : Nat} {old new : List α}
    (hold : ∀ a ∈ old, id a < n) (hnew : ∀ a ∈ new, id a = n) :
    (old ++ new).filter (fun a => id a ≠ n) = old := by
  have hkeep : old.filter (fun a => id a ≠ n) = old :=
    List.filter_eq_self.2 fun a ha => decide_eq_true (hold a ha).ne
  have hdrop : new.filter (fun a => id a ≠ n) = [] :=
    List.filter_eq_nil_iff.2 fun a ha => by simp [hnew a ha]
  rw [List.filter_append, hkeep, hdrop, List.append_nil]

section Call

variable {s : System} {orgID elementType : String}

/-- The tables once an id has been generated. -/
def generated (repo : Repo) : Repo := { repo with nextID := repo.nextID + 1 }

/-- The row that a call inserts. -/
def newRow (s : System) (orgID elementType : String) : AgentConfigVersion :=
  (generated s.repo).numbered orgID (newAgentConfigVersion orgID elementType s.repo.nextID)

@[simp] theorem newRow_id : (newRow s orgID elementType).id = s.repo.nextID := by
  unfold newRow Repo.numbered
  split <;> rfl

/-- The new row has the next number of its history where this is the longest one, and number one
otherwise. -/
theorem newRow_key (h : Consistent s) (orgID elementType : String) :
    (newRow s orgID elementType).toVersionKey =
      ⟨orgID, elementType,
        if maxVersion s.repo = some ((history s.returned orgID elementType).length : Int) then
          (history s.returned orgID elementType).length + 1
        else 1⟩ := by
  have hlatest := h.getLatestVersion orgID elementType
  have hsame : (generated s.repo).getLatestVersion orgID elementType =
      s.repo.getLatestVersion orgID elementType := rfl
  unfold newRow Repo.numbered
  rw [show (newAgentConfigVersion orgID elementType s.repo.nextID).elementType = elementType
    from rfl, hsame]
  split at hlatest
  · rename_i hmax
    rw [if_pos hmax]
    obtain ⟨row, hrow, hkey⟩ := Option.map_eq_some_iff.1 hlatest
    have hversion := congrArg VersionKey.version hkey
    simp only at hversion
    rw [hrow]
    simp [AgentConfigVersion.incrementVersion, newAgentConfigVersion, hversion]
  · rename_i hmax
    rw [if_neg hmax, Option.map_eq_none_iff.1 hlatest]
    rfl

theorem newRow_org (h : Consistent s) : (newRow s orgID elementType).orgID = orgID :=
  congrArg VersionKey.orgID (newRow_key h orgID elementType)

theorem newRow_type (h : Consistent s) :
    (newRow s orgID elementType).elementType = elementType :=
  congrArg VersionKey.elementType (newRow_key h orgID elementType)

/-- The cleanup after inserts of rows with the new id. -/
theorem removeVersion_leaves (h : Consistent s) (faults : StorageFaults) {repo : Repo}
    {rows : List AgentConfigVersion} {added : List AgentConfigElement}
    (hversion : repo.agentConfigVersion = s.repo.agentConfigVersion ++ rows)
    (helement : repo.agentConfigElement = s.repo.agentConfigElement ++ added)
    (hrows : ∀ c ∈ rows, c.id = s.repo.nextID ∧ c.orgID = orgID)
    (hadded : ∀ e ∈ added, e.versionID = s.repo.nextID) :
    LeavesAtMost faults s.repo (repo.removeVersion faults orgID s.repo.nextID) s.repo.nextID := by
  have hversions : repo.agentConfigVersion.filter (fun c => c.id ≠ s.repo.nextID) =
      s.repo.agentConfigVersion := by
    rw [hversion]
    exact filter_append_ne h.versionIDs fun c hc => (hrows c hc).1
  have helements : repo.agentConfigElement.filter (fun e => e.versionID ≠ s.repo.nextID) =
      s.repo.agentConfigElement := by
    rw [helement]
    exact filter_append_ne h.elementIDs hadded
  -- The `WHERE` of the second `DELETE` also names the org, which the new row has.
  have hwhere : repo.agentConfigVersion.filter
        (fun c => !(c.id = s.repo.nextID && c.orgID = orgID)) = s.repo.agentConfigVersion := by
    rw [← hversions]
    apply List.filter_congr
    intro c hc
    rw [hversion] at hc
    rcases List.mem_append.1 hc with hc | hc
    · simp [(h.versionIDs c hc).ne]
    · simp [hrows c hc]
  refine ⟨?_, ?_, ?_, ?_⟩
  · simp only [Repo.removeVersion]
    split
    · exact hversions
    · rw [hwhere, ← hversions, List.filter_filter]
      simp
  · simp only [Repo.removeVersion]
    split
    · exact helements
    · rw [List.filter_filter]
      simpa using helements
  · intro hdone
    simp only [Repo.removeVersion, hdone, Bool.false_eq_true, if_false]
    exact hwhere
  · intro hdone
    simp only [Repo.removeVersion, hdone, Bool.false_eq_true, if_false]
    exact helements

/-- What a call does once its arguments are accepted and the latest version is read. -/
theorem startNewVersion_accepted (faults : StorageFaults) (orgID : String) {elementType : String}
    {elementIDs : List String} (htype : elementType ≠ "")
    (hsome : ¬ (elementIDs = [] ∧ elementType ≠ elementTypeLogPipelines))
    (hlatest : faults.getLatestVersion = false) :
    s.repo.startNewVersion faults orgID elementType elementIDs =
      match (generated s.repo).insertVersion faults (newRow s orgID elementType) with
      | none => ((generated s.repo).removeVersion faults orgID s.repo.nextID,
          .error "failed to insert config version")
      | some inserted =>
        match inserted.insertElements faults (newRow s orgID elementType) elementIDs with
        | (inserted, false) => (inserted.removeVersion faults orgID s.repo.nextID,
            .error "failed to insert config element")
        | (inserted, true) => (inserted, .ok (newRow s orgID elementType)) := by
  have hzero : (newAgentConfigVersion orgID elementType s.repo.nextID).version = 0 := rfl
  have htype' : (newAgentConfigVersion orgID elementType s.repo.nextID).elementType =
    elementType := rfl
  have hid : ((generated s.repo).numbered orgID
      (newAgentConfigVersion orgID elementType s.repo.nextID)).id = s.repo.nextID := newRow_id
  simp only [generated] at hid
  simp only [Repo.startNewVersion, Repo.insertConfig, htype', if_neg htype, if_neg hsome, hzero,
    ne_eq, not_true_eq_false, if_false, hlatest, Bool.false_eq_true, hid]
  rfl

/-- The insert of the new row, which the index rejects if the number was given before. -/
theorem insertVersion_newRow (h : Consistent s) (faults : StorageFaults) :
    (generated s.repo).insertVersion faults (newRow s orgID elementType) =
      if faults.insertVersion = true ∨ (newRow s orgID elementType).toVersionKey ∈ s.returned then
        none
      else some { generated s.repo with
        agentConfigVersion := s.repo.agentConfigVersion ++ [newRow s orgID elementType] } := by
  have hany : ((generated s.repo).agentConfigVersion.any fun row =>
        row.toVersionKey = (newRow s orgID elementType).toVersionKey) = true ↔
      (newRow s orgID elementType).toVersionKey ∈ s.returned := by
    rw [← h.rows, List.mem_map]
    simp [generated]
  simp only [Repo.insertVersion, hany]
  rfl

/-- What a call with any faults leaves: with a result, the row and those of its elements, and
otherwise at most rows of an id that no row had. -/
theorem startNewVersion_leaves (h : Consistent s) (faults : StorageFaults)
    (orgID elementType : String) (elementIDs : List String) :
    match s.repo.startNewVersion faults orgID elementType elementIDs with
    | (t, .ok row) =>
      row = newRow s orgID elementType ∧ row.toVersionKey ∉ s.returned ∧
        t = ⟨s.repo.agentConfigVersion ++ [row],
          s.repo.agentConfigElement ++ elementRows row elementIDs, s.repo.nextID + 1⟩
    | (t, .error _) => LeavesAtMost faults s.repo t s.repo.nextID ∧
        t.nextID = s.repo.nextID + 1 := by
  have hkept : LeavesAtMost faults s.repo (generated s.repo) s.repo.nextID :=
    ⟨List.filter_eq_self.2 fun c hc => decide_eq_true (h.versionIDs c hc).ne,
      List.filter_eq_self.2 fun e he => decide_eq_true (h.elementIDs e he).ne,
      fun _ => rfl, fun _ => rfl⟩
  -- the checks before any statement leave the rows as they are
  by_cases htype : elementType = ""
  · have hcall : s.repo.startNewVersion faults orgID elementType elementIDs =
        (generated s.repo, .error "element type is required for creating agent config version") :=
      if_pos htype
    rw [hcall]
    exact ⟨hkept, rfl⟩
  by_cases hsome : elementIDs = [] ∧ elementType ≠ elementTypeLogPipelines
  · have hcall : s.repo.startNewVersion faults orgID elementType elementIDs =
        (generated s.repo, .error "config must have atleast one element") :=
      (if_neg htype).trans (if_pos hsome)
    rw [hcall]
    exact ⟨hkept, rfl⟩
  cases hlatest : faults.getLatestVersion with
  | true =>
    have hcall : s.repo.startNewVersion faults orgID elementType elementIDs =
        (generated s.repo, .error "failed to get latest config version") :=
      (if_neg htype).trans ((if_neg hsome).trans ((if_neg (not_not.2 rfl)).trans (if_pos hlatest)))
    rw [hcall]
    exact ⟨hkept, rfl⟩
  | false =>
    rw [startNewVersion_accepted faults orgID htype hsome hlatest, insertVersion_newRow h]
    split_ifs with hreject
    · refine ⟨?_, rfl⟩
      exact removeVersion_leaves h faults (List.append_nil _).symm (List.append_nil _).symm nofun
        nofun
    · rw [not_or] at hreject
      obtain ⟨inserted, -, heq, hall⟩ := insertElements_adds faults (newRow s orgID elementType)
        elementIDs { generated s.repo with
          agentConfigVersion := s.repo.agentConfigVersion ++ [newRow s orgID elementType] }
      revert heq hall
      simp only
      generalize Repo.insertElements _ faults (newRow s orgID elementType) elementIDs = result
      obtain ⟨t, _ | _⟩ := result
      · rintro rfl -
        refine ⟨removeVersion_leaves h faults rfl rfl ?_ ?_, rfl⟩
        · intro c hc
          rw [List.mem_singleton.1 hc]
          exact ⟨newRow_id, newRow_org h⟩
        · intro e he
          obtain ⟨_, -, rfl⟩ := List.mem_map.1 he
          exact newRow_id
      · rintro rfl hall
        rw [hall rfl]
        exact ⟨rfl, hreject.2, rfl⟩

/-- Without faults a call succeeds unless it is refused or its number was given before. -/
theorem startNewVersion_ok_iff (h : Consistent s) (orgID elementType : String)
    (elementIDs : List String) :
    (∃ row, (s.repo.startNewVersion .none orgID elementType elementIDs).2 = .ok row) ↔
      ¬ Refused elementType elementIDs ∧
        (newRow s orgID elementType).toVersionKey ∉ s.returned := by
  by_cases htype : elementType = ""
  · have hcall : s.repo.startNewVersion .none orgID elementType elementIDs =
        (generated s.repo, .error "element type is required for creating agent config version") :=
      if_pos htype
    rw [hcall]
    exact iff_of_false nofun fun hok => hok.1 (.inl htype)
  by_cases hsome : elementIDs = [] ∧ elementType ≠ elementTypeLogPipelines
  · have hcall : s.repo.startNewVersion .none orgID elementType elementIDs =
        (generated s.repo, .error "config must have atleast one element") :=
      (if_neg htype).trans (if_pos hsome)
    rw [hcall]
    exact iff_of_false nofun fun hok => hok.1 (.inr (.inl hsome))
  have hrefused : Refused elementType elementIDs ↔ ¬ elementIDs.Nodup := by
    simp only [Refused, htype, hsome, false_or]
  rw [startNewVersion_accepted .none orgID htype hsome rfl, insertVersion_newRow h, hrefused,
    not_not]
  split_ifs with hreject
  · refine iff_of_false nofun fun hok => ?_
    exact hok.2 (hreject.resolve_left Bool.false_ne_true)
  · rw [not_or] at hreject
    have hsucceeds := @insertElements_succeeds .none (fun _ => rfl) (newRow s orgID elementType)
      elementIDs { generated s.repo with
        agentConfigVersion := s.repo.agentConfigVersion ++ [newRow s orgID elementType] }
    have hnew : ∀ e ∈ elementIDs, (⟨e, (newRow s orgID elementType).elementType,
        (newRow s orgID elementType).id⟩ : AgentConfigElement) ∉ s.repo.agentConfigElement :=
      fun e _ hold => absurd (h.elementIDs _ hold) (by simp)
    rw [and_iff_left hreject.2]
    refine Iff.trans ?_ (hsucceeds.trans (and_iff_left hnew))
    simp only
    generalize Repo.insertElements _ _ (newRow s orgID elementType) elementIDs = result
    obtain ⟨t, _ | _⟩ := result
    · exact iff_of_false nofun nofun
    · exact iff_of_true ⟨_, rfl⟩ rfl

/-- The number of the new row is the next one of its history if it was not given before, and was
given before only where the history's versions are not the latest of the table. -/
theorem newRow_next (h : Consistent s) (orgID elementType : String) :
    ((newRow s orgID elementType).toVersionKey ∉ s.returned →
        (newRow s orgID elementType).toVersionKey =
          ⟨orgID, elementType, (history s.returned orgID elementType).length + 1⟩) ∧
      ((newRow s orgID elementType).toVersionKey ∈ s.returned →
        history s.returned orgID elementType ≠ [] ∧
          maxVersion s.repo ≠ some ((history s.returned orgID elementType).length : Int)) := by
  rw [newRow_key h, h.mem_returned]
  simp only
  split
  · next hmax =>
    refine ⟨fun _ => rfl, ?_⟩
    rintro ⟨-, hle⟩
    omega
  · next hmax =>
    constructor
    · -- number one is free, so the history has none
      intro hfree
      have hzero : (history s.returned orgID elementType).length = 0 := by omega
      rw [hzero]
      rfl
    · rintro ⟨-, hle⟩
      refine ⟨?_, hmax⟩
      intro hempty
      rw [hempty] at hle
      exact absurd hle (by decide)

/-- What a call of `StartNewVersion` does: it is refused or its number is taken, and the tables
stay as they are, or a row with the next number of the history is added. -/
theorem startNewVersion_cases (h : Consistent s) (orgID elementType : String)
    (elementIDs : List String) :
    (apply s (.startNewVersion orgID elementType elementIDs) =
        ⟨generated s.repo, s.returned⟩ ∧
      (Refused elementType elementIDs ∨
        (history s.returned orgID elementType ≠ [] ∧
          maxVersion s.repo ≠ some ((history s.returned orgID elementType).length : Int)))) ∨
    (¬ Refused elementType elementIDs ∧
      (newRow s orgID elementType).toVersionKey =
          ⟨orgID, elementType, (history s.returned orgID elementType).length + 1⟩ ∧
        apply s (.startNewVersion orgID elementType elementIDs) =
          ⟨⟨s.repo.agentConfigVersion ++ [newRow s orgID elementType],
              s.repo.agentConfigElement ++ elementRows (newRow s orgID elementType) elementIDs,
              s.repo.nextID + 1⟩,
            s.returned ++ [⟨orgID, elementType,
              (history s.returned orgID elementType).length + 1⟩]⟩) := by
  have hleaves := startNewVersion_leaves h .none orgID elementType elementIDs
  have hok := startNewVersion_ok_iff h orgID elementType elementIDs
  obtain ⟨hnext, htaken⟩ := newRow_next h orgID elementType
  rw [apply]
  cases hcall : s.repo.startNewVersion .none orgID elementType elementIDs with
  | mk t result =>
    rw [hcall] at hleaves hok
    cases result with
    | error message =>
      obtain ⟨hleaves, hid⟩ := hleaves
      have ht : t = generated s.repo := by
        obtain ⟨versions, elements, nextID⟩ := t
        obtain rfl := hleaves.versionsRemoved rfl
        obtain rfl := hleaves.elementsRemoved rfl
        obtain rfl := hid
        rfl
      refine .inl ⟨by rw [ht], ?_⟩
      by_cases hrefused : Refused elementType elementIDs
      · exact .inl hrefused
      · refine .inr (htaken ?_)
        by_contra hfree
        obtain ⟨row, hrow⟩ := hok.2 ⟨hrefused, hfree⟩
        cases hrow
    | ok row =>
      obtain ⟨rfl, hfree, rfl⟩ := hleaves
      refine .inr ⟨(hok.1 ⟨_, rfl⟩).1, hnext hfree, ?_⟩
      simp only [hnext hfree]

end Call

/-! ## Every run -/

theorem consistent_initial : Consistent initial where
  rows := rfl
  inOrder := fun _ _ => rfl
  versionIDs := by simp [initial]
  elementIDs := by simp [initial]

/-- The histories after one more version of an org and element type. -/
theorem length_history_append (keys : List VersionKey) (orgID elementType org type : String)
    (v : Int) :
    (history (keys ++ [⟨orgID, elementType, v⟩]) org type).length =
      (history keys org type).length + if (org, type) = (orgID, elementType) then 1 else 0 := by
  by_cases h : (org, type) = (orgID, elementType)
  · obtain ⟨rfl, rfl⟩ := Prod.mk.inj h
    rw [history_append_self, List.length_append, if_pos rfl]
    rfl
  · rw [history_append_of_ne v h, if_neg h]
    rfl

/-- An update of columns that are no part of the key. -/
theorem Consistent.updateWhere (h : Consistent s) {cond : AgentConfigVersion → Bool}
    {set : AgentConfigVersion → AgentConfigVersion}
    (hkey : ∀ c, (set c).toVersionKey = c.toVersionKey) (hid : ∀ c, (set c).id = c.id) :
    Consistent { s with repo := s.repo.updateWhere cond set } where
  rows := by
    rw [← h.rows]
    simp only [Repo.updateWhere, List.map_map]
    apply List.map_congr_left
    intro c _
    by_cases hc : cond c <;> simp [hc, hkey]
  inOrder := h.inOrder
  versionIDs := by
    intro c hc
    obtain ⟨c', hc', rfl⟩ := List.mem_map.1 hc
    have hlt := h.versionIDs c' hc'
    by_cases hcond : cond c' <;> simpa [Repo.updateWhere, hcond, hid] using hlt
  elementIDs := h.elementIDs

theorem Consistent.generated (h : Consistent s) :
    Consistent ⟨generated s.repo, s.returned⟩ where
  rows := h.rows
  inOrder := h.inOrder
  versionIDs := fun c hc => Nat.lt_succ_of_lt (h.versionIDs c hc)
  elementIDs := fun e he => Nat.lt_succ_of_lt (h.elementIDs e he)

theorem Consistent.insert (h : Consistent s) {c : AgentConfigVersion}
    {added : List AgentConfigElement} (hid : c.id = s.repo.nextID)
    (hkey : c.toVersionKey =
      ⟨orgID, elementType, (history s.returned orgID elementType).length + 1⟩)
    (hadded : ∀ e ∈ added, e.versionID = s.repo.nextID) :
    Consistent ⟨⟨s.repo.agentConfigVersion ++ [c], s.repo.agentConfigElement ++ added,
      s.repo.nextID + 1⟩, s.returned ++ [⟨orgID, elementType,
        (history s.returned orgID elementType).length + 1⟩]⟩ where
  rows := by simp [h.rows, hkey]
  inOrder := by
    intro org type
    rw [length_history_append]
    by_cases hsame : (org, type) = (orgID, elementType)
    · obtain ⟨rfl, rfl⟩ := Prod.mk.inj hsame
      rw [history_append_self, if_pos rfl, firstVersions_succ, ← h.inOrder]
    · rw [history_append_of_ne _ hsame, if_neg hsame]
      exact h.inOrder org type
  versionIDs := by
    intro c' hc'
    rcases List.mem_append.1 hc' with hc' | hc'
    · exact Nat.lt_succ_of_lt (h.versionIDs c' hc')
    · rw [List.mem_singleton.1 hc', hid]
      exact Nat.lt_succ_self _
  elementIDs := by
    intro e he
    rcases List.mem_append.1 he with he | he
    · exact Nat.lt_succ_of_lt (h.elementIDs e he)
    · rw [hadded e he]
      exact Nat.lt_succ_self _

theorem Consistent.apply (h : Consistent s) (op : Op) : Consistent (apply s op) := by
  cases op with
  | startNewVersion orgID elementType elementIDs =>
    obtain ⟨heq, -⟩ | ⟨-, hkey, heq⟩ := startNewVersion_cases h orgID elementType elementIDs
    · rw [heq]
      exact h.generated
    · rw [heq]
      refine h.insert newRow_id hkey fun e he => ?_
      obtain ⟨_, -, rfl⟩ := List.mem_map.1 he
      exact newRow_id
  | updateDeployStatus orgID elementType version status result lastHash lastconf =>
    exact h.updateWhere (fun _ => rfl) (fun _ => rfl)
  | updateDeployStatusByHash orgID confighash status result =>
    exact h.updateWhere (fun _ => rfl) (fun _ => rfl)

/-- A version added to a history of `n` keeps all histories at one length exactly when the others
that have versions have `n + 1`. -/
theorem sameLength_append (v : Int) :
    SameLength (keys ++ [⟨orgID, elementType, v⟩]) ↔
      ∀ org type, (org, type) ≠ (orgID, elementType) → history keys org type ≠ [] →
        (history keys org type).length = (history keys orgID elementType).length + 1 := by
  have hself : (history (keys ++ [⟨orgID, elementType, v⟩]) orgID elementType).length =
      (history keys orgID elementType).length + 1 := by
    rw [length_history_append, if_pos rfl]
  have hnew : history (keys ++ [⟨orgID, elementType, v⟩]) orgID elementType ≠ [] := by
    rw [history_append_self]
    simp
  constructor
  · intro h org type hne hold
    have heq := h org type orgID elementType (by rwa [history_append_of_ne v hne]) hnew
    rwa [hself, history_append_of_ne v hne] at heq
  · intro h
    have hlength : ∀ org type, history (keys ++ [⟨orgID, elementType, v⟩]) org type ≠ [] →
        (history (keys ++ [⟨orgID, elementType, v⟩]) org type).length =
          (history keys orgID elementType).length + 1 := by
      intro org type hold
      by_cases hsame : (org, type) = (orgID, elementType)
      · obtain ⟨rfl, rfl⟩ := Prod.mk.inj hsame
        exact hself
      · rw [history_append_of_ne v hsame] at hold ⊢
        exact h org type hsame hold
    intro org type org' type' hold hold'
    rw [hlength org type hold, hlength org' type' hold']

/-- A call keeps the latest versions right exactly when it keeps pace with the other
histories. -/
theorem sameLength_apply (h : Consistent s) (hsame : SameLength s.returned) (op : Op) :
   SameLength (apply s op).returned ↔ KeepsPace s op := by
  cases op with
  | startNewVersion orgID elementType elementIDs =>
    obtain ⟨heq, hwhy⟩ | ⟨haccepted, -, heq⟩ :=
      startNewVersion_cases h orgID elementType elementIDs
    · rw [heq]
      rcases hwhy with hrefused | ⟨hne, hmax⟩
      · exact ⟨fun _ => .inl hrefused, fun _ => hsame⟩
      · -- where the latest versions are right, a history with versions has the largest one
        have hlatest := h.latest_iff.2 hsame orgID elementType
        rw [h.getLatestVersion, if_neg hmax, h.getLast,
          if_neg (mt List.length_eq_zero_iff.1 hne)] at hlatest
        cases hlatest
    · rw [heq]
      exact (sameLength_append _).trans ⟨.inr, fun hpace => hpace.resolve_left haccepted⟩
  | updateDeployStatus orgID elementType version status result lastHash lastconf =>
    exact ⟨fun _ => trivial, fun _ => hsame⟩
  | updateDeployStatusByHash orgID confighash status result =>
    exact ⟨fun _ => trivial, fun _ => hsame⟩

theorem Consistent.numberedPerOrgAndType (h : Consistent s) :
    NumberedPerOrgAndType s ↔ SameLength s.returned := by
  constructor
  · exact fun hnumbered => h.latest_iff.1 hnumbered.latest
  · intro hsame
    exact ⟨h.inOrder, h.rows ▸ h.nodup, h.latest_iff.2 hsame⟩

/-- In every run from empty tables, versions are numbered per org and element type after each
call exactly when every call that is not refused keeps pace with the other histories. -/
theorem versions_numbered_per_org_and_type (ops : List Op) :
    (∀ before s, before <+: ops → Lib.Runs.exec step initial before = some s →
        NumberedPerOrgAndType s) ↔
      Lib.Runs.StepsMeet step KeepsPace initial ops := by
  have hinitial : NumberedPerOrgAndType initial :=
    consistent_initial.numberedPerOrgAndType.2 fun _ _ _ _ h => absurd rfl h
  apply Lib.Runs.forall_prefix_iff_stepsMeet (J := Consistent)
  · exact fun s op _ => ⟨apply s op, rfl⟩
  · intro s op t h hstep
    obtain rfl := Option.some.inj hstep
    exact h.apply op
  · intro s op t h hnumbered hstep
    obtain rfl := Option.some.inj hstep
    rw [(h.apply op).numberedPerOrgAndType]
    exact sameLength_apply h (h.numberedPerOrgAndType.1 hnumbered) op
  · exact consistent_initial
  · exact hinitial

/-- After any calls, those that succeeded for an org and element type were numbered 1, 2, 3, … in
order. One more call, of whose statements any may fail, adds the row of the next number and the rows
of its elements, or it returns an error and leaves the rows from before, with more of them, all of a
new id, only in a table whose `DELETE` failed. -/
theorem startNewVersion_all_or_nothing (ops : List Op) (faults : StorageFaults)
    (orgID elementType : String) (elementIDs : List String) :
    ∃ s, Lib.Runs.exec step initial ops = some s ∧
      (∀ c ∈ s.repo.agentConfigVersion, c.id ≠ s.repo.nextID) ∧
      (∀ e ∈ s.repo.agentConfigElement, e.versionID ≠ s.repo.nextID) ∧
      let n := (history s.returned orgID elementType).length
      history s.returned orgID elementType = firstVersions orgID elementType n ∧
        match s.repo.startNewVersion faults orgID elementType elementIDs with
        | (t, .ok row) =>
          row.toVersionKey = ⟨orgID, elementType, n + 1⟩ ∧ row.id = s.repo.nextID ∧
            t.agentConfigVersion = s.repo.agentConfigVersion ++ [row] ∧
            t.agentConfigElement = s.repo.agentConfigElement ++ elementRows row elementIDs
        | (t, .error _) => LeavesAtMost faults s.repo t s.repo.nextID := by
  have hrun : ∀ (ops : List Op) (s : System), Consistent s →
      ∃ t, Lib.Runs.exec step s ops = some t ∧ Consistent t := by
    intro ops
    induction ops with
    | nil => exact fun s h => ⟨s, rfl, h⟩
    | cons op ops ih => exact fun s h => ih (apply s op) (h.apply op)
  obtain ⟨s, hs, h⟩ := hrun ops initial consistent_initial
  refine ⟨s, hs, fun c hc => (h.versionIDs c hc).ne, fun e he => (h.elementIDs e he).ne,
    h.inOrder orgID elementType, ?_⟩
  have hleaves := startNewVersion_leaves h faults orgID elementType elementIDs
  revert hleaves
  cases s.repo.startNewVersion faults orgID elementType elementIDs with
  | mk t result =>
    cases result with
    | error message => exact And.left
    | ok row =>
      rintro ⟨rfl, hfree, rfl⟩
      exact ⟨(newRow_next h orgID elementType).1 hfree, newRow_id, rfl, rfl⟩

/-- Two versions of one element type and one of another. -/
def twoHistories : List Op :=
  [.startNewVersion "org" "log_pipelines" ["p"], .startNewVersion "org" "drop_rules" ["d"],
    .startNewVersion "org" "log_pipelines" ["p"]]

/-- After the second version of one element type, the version of the other is not found. -/
theorem latest_version_outrun :
    ∃ s, Lib.Runs.exec step initial twoHistories = some s ∧
      s.returned = [⟨"org", "log_pipelines", 1⟩, ⟨"org", "drop_rules", 1⟩,
        ⟨"org", "log_pipelines", 2⟩] ∧
      s.repo.getLatestVersion "org" "drop_rules" = none ∧
      (s.repo.startNewVersion .none "org" "drop_rules" ["d"]).2 =
        .error "failed to insert config version" ∧
      ¬ NumberedPerOrgAndType s := by
  refine ⟨_, rfl, by decide, by decide, by decide, ?_⟩
  intro h
  have hlatest := h.latest "org" "drop_rules"
  revert hlatest
  decide

end Signoz.AgentConf
