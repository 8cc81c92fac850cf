import Signoz.Rules.Hysteresis

/-!
# The recorded state history

Alerts are keyed by the hash of their expanded labels, history items by the hash of the raw query
labels, so several entries of `Active` can share one fingerprint of the history. Where the entries
of a fingerprint change one at a time, and no pending one vanishes before its fingerprint ever fired,
the history tells the truth: `history_tells_truth` is this law over every run. Two runs that leave
the condition show the two ways in which it fails.
-/

namespace Signoz.Rules

open Signoz.Querier Lib.KeyedFold Lib.Runs

/-! ## The law -/

/-- Firing or recovering. -/
def AlertState.isLive : AlertState → Bool
  | .firing => true
  | .recovering => true
  | _ => false

/-- The state of an item that tells of an alert: Firing, NoData or Recovering. -/
def AlertState.isAlerting : AlertState → Bool
  | .firing => true
  | .noData => true
  | .recovering => true
  | _ => false

variable {V : Type} (env : RuleEnv V) (rule : BaseRule V)

/-- The fingerprint under which the history files an entry. -/
def historyFingerprint (a : Alert V) : Nat := a.queryResultLabels.hash env.sum64

/-- The last item of a fingerprint. -/
def lastItem (history : List (HistoryItem V)) (fp : Nat) : Option (HistoryItem V) :=
  (history.filter fun i => i.fingerprint = fp).getLast?

/-- Some entry of the fingerprint is firing or recovering. -/
def HasLiveEntry (active : ActiveMap V) (fp : Nat) : Prop :=
  ∃ p ∈ active, historyFingerprint env p.2 = fp ∧ p.2.state.isLive = true

/-- Some item of the fingerprint tells of an alert. -/
def HasAlerted (history : List (HistoryItem V)) (fp : Nat) : Prop :=
  ∃ i ∈ history, i.fingerprint = fp ∧ i.state.isAlerting = true

/-- The history and the resolved times agree with the alerts. -/
structure HistoryTellsTruth (state : EvalState V) : Prop where
  /-- The last item of a fingerprint is Inactive when no alert of it is firing or recovering. -/
  last : ∀ fp item, lastItem state.history fp = some item →
    (item.state = .inactive ↔ ¬ HasLiveEntry env state.active fp)
  /-- An Inactive item has an item before it that tells of an alert. -/
  resolves : ∀ before item after, state.history = before ++ item :: after →
    item.state = .inactive → HasAlerted before item.fingerprint
  /-- An alert is Inactive when it has a resolved time. -/
  resolvedAt : ∀ p ∈ state.active, p.2.state = .inactive ↔ p.2.resolvedAt.isSome = true

/-! ## The condition -/

section Condition

variable [Float64 V]

/-- An entry that resolves in an evaluation: it is not inactive and has no sample. -/
structure Resolves (state : EvalState V) (input : EvalInput V) (k : Nat) (x : Alert V) : Prop where
  entry : (k, x) ∈ state.active
  notInactive : x.state ≠ .inactive
  noSample : k ∉ evalKeys env rule state input

/-- The entry of a sample: the one that is there, unless it is inactive. -/
def entryOfSample (state : EvalState V) (ts : Int) (smpl : Sample V) : Alert V :=
  match state.active.lookup (alertKey env rule smpl) with
  | some x => if x.state = .inactive then newAlert env rule ts smpl else x
  | none => newAlert env rule ts smpl

/-- The entry is firing or recovering, or it starts to fire. -/
def WillBeLive (ts : Int) (a : Alert V) : Prop := a.state.isLive = true ∨ firesNow rule ts a = true

/-- What keeps the history true in an evaluation: a pending entry only vanishes when its
fingerprint has alerted before, and no entry resolves while another of its fingerprint is or gets
live. Evaluations that fail are exempt. -/
structure ResolvesAlone (state : EvalState V) (input : EvalInput V) : Prop where
  pending : (evalKeys env rule state input).Nodup →
    ∀ k x, Resolves env rule state input k x → x.state = .pending →
      HasAlerted state.history (historyFingerprint env x)
  alone : (evalKeys env rule state input).Nodup →
    ∀ k x, Resolves env rule state input k x → ∀ smpl ∈ evalSamples env rule state input,
      WillBeLive rule input.ts (entryOfSample env rule state input.ts smpl) →
        historyFingerprint env (entryOfSample env rule state input.ts smpl) ≠
          historyFingerprint env x

end Condition

/-! ## Items and the stored history -/

section Recorded

variable {env rule}

theorem lastItem_append (history items : List (HistoryItem V)) (fp : Nat) :
    lastItem (history ++ items) fp = (lastItem items fp).or (lastItem history fp) := by
  rw [lastItem, List.filter_append, List.getLast?_append]
  rfl

/-- The map from fingerprints to items that an evaluation stores. -/
abbrev revisedItems (items : List (HistoryItem V)) : List (Nat × HistoryItem V) :=
  accumulate id (fun _ item => item) [] (items.map fun i => (i.fingerprint, i))

theorem nodup_revisedItems (items : List (HistoryItem V)) :
    ((revisedItems items).map Prod.fst).Nodup :=
  nodup_keys_accumulate id (fun _ item => item) _ List.nodup_nil

/-- Every stored item is one of the evaluation's, under its own fingerprint. -/
theorem mem_revisedItems {items : List (HistoryItem V)} {p : Nat × HistoryItem V}
    (hp : p ∈ revisedItems items) : p.2 ∈ items ∧ p.2.fingerprint = p.1 := by
  have hlookup := (mem_iff_lookup (nodup_revisedItems items)).1 hp
  rw [lookup_accumulate] at hlookup
  rcases foldItems_replace hlookup with hnone | hitem
  · cases hnone
  · obtain ⟨i, hi, heq⟩ := List.mem_map.1 (mem_itemsOf.1 hitem)
    obtain ⟨hfp, rfl⟩ := Prod.mk.inj heq
    exact ⟨hi, hfp⟩

/-- Of the items of an evaluation with one fingerprint, the last is stored. -/
theorem lastItem_recorded (history items : List (HistoryItem V)) (fp : Nat) :
    lastItem (recordRuleStateHistory history items) fp =
      (lastItem items fp).or (lastItem history fp) := by
  have hstored : ((revisedItems items).map Prod.snd).filter (fun i => i.fingerprint = fp) =
      itemsOf fp (revisedItems items) := by
    rw [List.filter_map, itemsOf]
    congr 1
    apply List.filter_congr
    intro p hp
    simp only [Function.comp_apply, (mem_revisedItems hp).2]
  have hitems : itemsOf fp (items.map fun i => (i.fingerprint, i)) =
      items.filter fun i => i.fingerprint = fp := by
    rw [itemsOf, List.filter_map, List.map_map]
    exact List.map_id _
  have hlast : lastItem ((revisedItems items).map Prod.snd) fp = lastItem items fp := by
    rw [lastItem, hstored, itemsOf_eq_lookup (nodup_revisedItems items), lookup_accumulate,
      List.lookup_nil, foldItems_replace_eq_getLast?, hitems, lastItem]
    cases (items.filter fun i => i.fingerprint = fp).getLast? <;> rfl
  rw [recordRuleStateHistory, lastItem_append, hlast]

theorem mem_recorded {history items : List (HistoryItem V)} {item : HistoryItem V}
    (h : item ∈ recordRuleStateHistory history items) : item ∈ history ∨ item ∈ items := by
  rw [recordRuleStateHistory, List.mem_append] at h
  apply h.imp_right
  intro hstored
  obtain ⟨p, hp, rfl⟩ := List.mem_map.1 hstored
  exact (mem_revisedItems hp).1

theorem lastItem_mem {history : List (HistoryItem V)} {fp : Nat} {item : HistoryItem V}
    (h : lastItem history fp = some item) : item ∈ history ∧ item.fingerprint = fp := by
  have hmem := List.mem_of_getLast? h
  rw [List.mem_filter, decide_eq_true_eq] at hmem
  exact hmem

theorem exists_lastItem {history : List (HistoryItem V)} {item : HistoryItem V}
    (h : item ∈ history) : ∃ l, lastItem history item.fingerprint = some l := by
  apply Option.isSome_iff_exists.1
  rw [lastItem, List.getLast?_isSome]
  exact List.ne_nil_of_mem (List.mem_filter.2 ⟨h, decide_eq_true rfl⟩)

end Recorded

/-! ## One entry -/

section Entries

variable {env rule}

/-- What a visit of an entry with a sample does: it is live afterwards when it was before or has
told so, and every item tells of an alert under its fingerprint. -/
structure TellsOf (env : RuleEnv V) (a a' : Alert V) (items : List (HistoryItem V)) : Prop where
  labels : a'.queryResultLabels = a.queryResultLabels
  resolvedAt : a'.resolvedAt = a.resolvedAt
  state : a'.state.isLive = true ∨ a'.state = a.state
  live : a'.state.isLive = true ↔ a.state.isLive = true ∨ items ≠ []
  items : ∀ i ∈ items, i.fingerprint = historyFingerprint env a ∧ i.state.isAlerting = true

theorem TellsOf.refl (a : Alert V) : TellsOf env a a [] :=
  ⟨rfl, rfl, Or.inr rfl, by simp, nofun⟩

theorem TellsOf.trans {a b c : Alert V} {items more : List (HistoryItem V)}
    (h : TellsOf env a b items) (h' : TellsOf env b c more) : TellsOf env a c (items ++ more) where
  labels := h'.labels.trans h.labels
  resolvedAt := h'.resolvedAt.trans h.resolvedAt
  state := by
    rcases h'.state with hlive | hsame
    · exact Or.inl hlive
    · rw [hsame]
      exact h.state
  live := by
    rw [h'.live, h.live, ne_eq, ne_eq, ne_eq, List.append_eq_nil_iff, not_and_or, or_assoc]
  items := by
    intro i hi
    rcases List.mem_append.1 hi with hi | hi
    · exact h.items i hi
    · rw [historyFingerprint, ← h.labels]
      exact h'.items i hi

/-- A change of an entry to a live state that is told by one item. -/
theorem TellsOf.single {a a' : Alert V} {ts : Int} {s : AlertState} {v : V}
    (hlabels : a'.queryResultLabels = a.queryResultLabels) (hresolved : a'.resolvedAt = a.resolvedAt)
    (hlive : a'.state.isLive = true) (hitem : s.isAlerting = true) :
    TellsOf env a a' [historyItem env rule ts a s v] where
  labels := hlabels
  resolvedAt := hresolved
  state := Or.inl hlive
  live := by simp [hlive]
  items := by
    intro i hi
    obtain rfl := List.mem_singleton.1 hi
    exact ⟨rfl, hitem⟩

variable (env rule) in
theorem fireStep_tells (ts : Int) (a : Alert V) :
    TellsOf env a (fireStep env rule ts a).1 (fireStep env rule ts a).2 := by
  rw [fireStep]
  split
  · apply TellsOf.single
    · rfl
    · rfl
    · rfl
    · -- An alert on missing data is told as NoData.
      cases a.missing <;> rfl
  · exact TellsOf.refl a

variable (env rule) in
theorem fireStep_items (ts : Int) (a : Alert V) :
    (fireStep env rule ts a).2 ≠ [] ↔ firesNow rule ts a = true := by
  rw [fireStep]
  split
  · rename_i hfires
    exact ⟨fun _ => hfires, fun _ => List.cons_ne_nil _ _⟩
  · rename_i hnot
    exact ⟨fun h => absurd rfl h, fun h => absurd h hnot⟩

variable (env rule) in
theorem recoverStep_tells (ts : Int) (a : Alert V) :
    TellsOf env a (recoverStep env rule ts a).1 (recoverStep env rule ts a).2 := by
  rw [recoverStep]
  split
  · exact TellsOf.single rfl rfl rfl rfl
  · split
    · exact TellsOf.single rfl rfl rfl rfl
    · exact TellsOf.refl a

/-- Only a live entry recovers or fires again. -/
theorem recoverStep_items {ts : Int} {a : Alert V} (h : (recoverStep env rule ts a).2 ≠ []) :
    a.state.isLive = true := by
  rw [recoverStep] at h
  split at h
  · rename_i hfiring
    rw [of_decide_eq_true (Bool.and_eq_true_iff.1 hfiring).1]
    rfl
  · split at h
    · rename_i hrecovering
      rw [Bool.and_assoc] at hrecovering
      rw [of_decide_eq_true (Bool.and_eq_true_iff.1 hrecovering).1]
      rfl
    · exact absurd rfl h

variable (env rule) in
theorem visitPresent_tells (ts : Int) (a : Alert V) :
    TellsOf env a (visitPresent env rule ts a).1 (visitPresent env rule ts a).2 :=
  (fireStep_tells env rule ts a).trans (recoverStep_tells env rule ts _)

variable (env rule) in
theorem visitPresent_live (ts : Int) (a : Alert V) :
    (visitPresent env rule ts a).1.state.isLive = true ↔ WillBeLive rule ts a := by
  have hrecover := (recoverStep_tells env rule ts (fireStep env rule ts a).1).live
  rw [or_iff_left_of_imp recoverStep_items] at hrecover
  rw [WillBeLive, ← fireStep_items env, ← (fireStep_tells env rule ts a).live]
  exact hrecover

end Entries

/-! ## One evaluation -/

section Step

variable [Float64 V] {env rule} {state : EvalState V} {input : EvalInput V}

/-- Two alerts that a visit takes through the same states and files under the same fingerprint. -/
structure SameCourse (a b : Alert V) : Prop where
  state : a.state = b.state
  labels : a.queryResultLabels = b.queryResultLabels
  activeAt : a.activeAt = b.activeAt
  resolvedAt : a.resolvedAt = b.resolvedAt

omit [Float64 V] in
theorem SameCourse.willBeLive {a b : Alert V} (h : SameCourse a b) (ts : Int) :
    WillBeLive rule ts a ↔ WillBeLive rule ts b := by
  rw [WillBeLive, WillBeLive, firesNow, firesNow, h.state, h.activeAt]

omit [Float64 V] in
theorem SameCourse.fingerprint {a b : Alert V} (h : SameCourse a b) :
    historyFingerprint env a = historyFingerprint env b := by
  rw [historyFingerprint, historyFingerprint, h.labels]

omit [Float64 V] in
/-- The entry of a sample is the old one, which was not inactive, or a new one. -/
theorem entryOfSample_cases (env : RuleEnv V) (rule : BaseRule V) (state : EvalState V) (ts : Int)
    (smpl : Sample V) :
    (∃ x, state.active.lookup (alertKey env rule smpl) = some x ∧ x.state ≠ .inactive ∧
        entryOfSample env rule state ts smpl = x) ∨
      ((∀ x, state.active.lookup (alertKey env rule smpl) = some x → x.state = .inactive) ∧
        entryOfSample env rule state ts smpl = newAlert env rule ts smpl) := by
  cases hentry : state.active.lookup (alertKey env rule smpl) with
  | none =>
    right
    simp only [entryOfSample, hentry]
    exact ⟨nofun, trivial⟩
  | some x =>
    by_cases hinactive : x.state = .inactive
    · right
      simp only [entryOfSample, hentry, if_pos hinactive]
      exact ⟨fun y hy => Option.some.inj hy ▸ hinactive, trivial⟩
    · left
      simp only [entryOfSample, hentry, if_neg hinactive]
      exact ⟨x, rfl, hinactive, rfl⟩

/-- The merged map holds the entry of a sample, with a new value and new flags. -/
theorem merged_entryOfSample (hkeys : (evalKeys env rule state input).Nodup) {smpl : Sample V}
    (hsmpl : smpl ∈ evalSamples env rule state input) :
    ∃ b, (evalMerged env rule state input).lookup (alertKey env rule smpl) = some b ∧
      SameCourse b (entryOfSample env rule state input.ts smpl) := by
  have hfst := map_fst_alertsOf env rule input.ts (evalSamples env rule state input)
  have hlookup : (alertsOf env rule input.ts (evalSamples env rule state input)).lookup
      (alertKey env rule smpl) = some (newAlert env rule input.ts smpl) :=
    (alertsOf_lookup hkeys).2 ⟨smpl, hsmpl, rfl, rfl⟩
  rw [evalMerged, mergeActive_lookup (by rw [hfst]; exact hkeys), hlookup]
  cases hentry : state.active.lookup (alertKey env rule smpl) with
  | none =>
    simp only [entryOfSample, hentry]
    exact ⟨_, rfl, rfl, rfl, rfl, rfl⟩
  | some x =>
    simp only [entryOfSample, hentry, Option.elim_some, mergeAlert]
    split
    · exact ⟨_, rfl, rfl, rfl, rfl, rfl⟩
    · exact ⟨_, rfl, rfl, rfl, rfl, rfl⟩

/-- The items of an evaluation, as they are recorded. -/
def evalItems (env : RuleEnv V) (rule : BaseRule V) (state : EvalState V) (input : EvalInput V) :
    List (HistoryItem V) :=
  let active := visitActive env rule input.ts (evalKeys env rule state input)
    (evalMerged env rule state input)
  (itemsToAdd env rule input.ts (evalKeys env rule state input)
      (input.order.visit (evalMerged env rule state input))).map fun item =>
    { item with
      overallState := overallStateOf active
      overallStateChanged := overallStateOf active ≠ overallStateOf state.active }

theorem applyAlerts_history (state : EvalState V) (input : EvalInput V) (last : Option Int) :
    (applyAlerts env rule state input last
        (alertsOf env rule input.ts (evalSamples env rule state input))).history =
      recordRuleStateHistory state.history (evalItems env rule state input) := by
  rw [applyAlerts, map_fst_alertsOf]
  rfl

/-- An item comes from an entry that the loop visits. -/
theorem mem_evalItems {i : HistoryItem V} (hi : i ∈ evalItems env rule state input) :
    ∃ p ∈ evalMerged env rule state input,
      ∃ j ∈ (visitEntry env rule input.ts (evalKeys env rule state input) p).2,
        j.fingerprint = i.fingerprint ∧ j.state = i.state := by
  obtain ⟨j, hj, rfl⟩ := List.mem_map.1 hi
  obtain ⟨p, hp, hjp⟩ := List.mem_flatMap.1 hj
  exact ⟨p, (input.order.perm _).mem_iff.1 hp, j, hjp, rfl, rfl⟩

/-- Every entry that the loop visits adds its items. -/
theorem evalItems_of_visit {p : Nat × Alert V} (hp : p ∈ evalMerged env rule state input)
    {j : HistoryItem V}
    (hj : j ∈ (visitEntry env rule input.ts (evalKeys env rule state input) p).2) :
    ∃ i ∈ evalItems env rule state input, i.fingerprint = j.fingerprint := by
  have hvisit : j ∈ itemsToAdd env rule input.ts (evalKeys env rule state input)
      (input.order.visit (evalMerged env rule state input)) :=
    List.mem_flatMap.2 ⟨p, (input.order.perm _).mem_iff.2 hp, hj⟩
  exact ⟨_, List.mem_map_of_mem hvisit, rfl⟩

theorem visitEntry_present {k : Nat} (hk : k ∈ evalKeys env rule state input) (a : Alert V) :
    visitEntry env rule input.ts (evalKeys env rule state input) (k, a) =
      (some (visitPresent env rule input.ts a).1, (visitPresent env rule input.ts a).2) := by
  simp only [visitEntry, List.contains_iff_mem.2 hk, if_true]

theorem visitEntry_missing {k : Nat} (hk : k ∉ evalKeys env rule state input) (a : Alert V) :
    visitEntry env rule input.ts (evalKeys env rule state input) (k, a) =
      visitMissing env rule input.ts a := by
  have hnot : (evalKeys env rule state input).contains k = false := by
    simpa using hk
  simp only [visitEntry, hnot, Bool.false_eq_true, if_false]

/-- An entry that resolves adds an item. -/
theorem evalItems_of_resolves (hactive : (state.active.map Prod.fst).Nodup)
    (hkeys : (evalKeys env rule state input).Nodup) {k : Nat} {x : Alert V}
    (h : Resolves env rule state input k x) :
    ∃ i ∈ evalItems env rule state input, i.fingerprint = historyFingerprint env x := by
  have hmem := (mem_evalMerged_of_notMem hactive hkeys h.noSample).2 h.entry
  apply evalItems_of_visit (j := historyItem env rule input.ts x .inactive (resolvedValue rule x))
    hmem
  rw [visitEntry_missing h.noSample, visitMissing]
  simp only [if_neg h.notInactive, List.mem_singleton]

/-- A sample whose entry starts to fire adds an item. -/
theorem evalItems_of_fires (hactive : (state.active.map Prod.fst).Nodup)
    (hkeys : (evalKeys env rule state input).Nodup) {smpl : Sample V}
    (hsmpl : smpl ∈ evalSamples env rule state input)
    (hwill : WillBeLive rule input.ts (entryOfSample env rule state input.ts smpl))
    (hnot : ¬ (entryOfSample env rule state input.ts smpl).state.isLive = true) :
    ∃ i ∈ evalItems env rule state input,
      i.fingerprint = historyFingerprint env (entryOfSample env rule state input.ts smpl) := by
  obtain ⟨b, hb, hsame⟩ := merged_entryOfSample hkeys hsmpl
  have htells := visitPresent_tells env rule input.ts b
  have hlive := (visitPresent_live env rule input.ts b).2 ((hsame.willBeLive input.ts).2 hwill)
  rw [htells.live, hsame.state, or_iff_right hnot] at hlive
  obtain ⟨j, hj⟩ := List.exists_mem_of_ne_nil _ hlive
  rw [← hsame.fingerprint, ← (htells.items j hj).1]
  apply evalItems_of_visit ((mem_iff_lookup (nodup_evalMerged input hactive)).2 hb)
  rw [visitEntry_present (List.mem_map_of_mem hsmpl)]
  exact hj

/-- An item tells of an entry with a sample that is live afterwards, or of one that resolves. -/
theorem evalItems_cases (hactive : (state.active.map Prod.fst).Nodup)
    (hkeys : (evalKeys env rule state input).Nodup) {i : HistoryItem V}
    (hi : i ∈ evalItems env rule state input) :
    (i.state.isAlerting = true ∧ ∃ smpl ∈ evalSamples env rule state input,
        historyFingerprint env (entryOfSample env rule state input.ts smpl) = i.fingerprint ∧
          WillBeLive rule input.ts (entryOfSample env rule state input.ts smpl)) ∨
      (i.state = .inactive ∧ ∃ k x, Resolves env rule state input k x ∧
        historyFingerprint env x = i.fingerprint) := by
  obtain ⟨⟨k, b⟩, hmem, j, hj, hfp, hstate⟩ := mem_evalItems hi
  rw [← hfp, ← hstate]
  by_cases hk : k ∈ evalKeys env rule state input
  · left
    rw [visitEntry_present hk] at hj
    obtain ⟨smpl, hsmpl, rfl⟩ := List.mem_map.1 hk
    obtain ⟨b', hb', hsame⟩ := merged_entryOfSample hkeys hsmpl
    have hb := (mem_iff_lookup (nodup_evalMerged input hactive)).1 hmem
    obtain rfl := Option.some.inj (hb.symm.trans hb')
    have htells := visitPresent_tells env rule input.ts b
    obtain ⟨hfp', halert⟩ := htells.items j hj
    refine ⟨halert, smpl, hsmpl, hsame.fingerprint.symm.trans hfp'.symm, ?_⟩
    rw [← hsame.willBeLive, ← visitPresent_live env rule, htells.live]
    exact Or.inr (List.ne_nil_of_mem hj)
  · right
    rw [visitEntry_missing hk, visitMissing] at hj
    by_cases hinactive : b.state = .inactive
    · simp only [if_pos hinactive, List.not_mem_nil] at hj
    · simp only [if_neg hinactive, List.mem_singleton] at hj
      obtain rfl := hj
      have hentry := (mem_evalMerged_of_notMem hactive hkeys hk).1 hmem
      exact ⟨rfl, k, b, ⟨hentry, hinactive, hk⟩, rfl⟩

/-- What an evaluation leaves in the map: the visited entry of a sample, or a resolved one. -/
theorem mem_active_cases (hactive : (state.active.map Prod.fst).Nodup)
    (hkeys : (evalKeys env rule state input).Nodup) {k : Nat} {a : Alert V}
    (ha : (k, a) ∈ visitActive env rule input.ts (evalKeys env rule state input)
      (evalMerged env rule state input)) :
    (∃ smpl ∈ evalSamples env rule state input, ∃ b items,
        SameCourse b (entryOfSample env rule state input.ts smpl) ∧ TellsOf env b a items ∧
          (a.state.isLive = true ↔
            WillBeLive rule input.ts (entryOfSample env rule state input.ts smpl))) ∨
      ∃ x, (k, x) ∈ state.active ∧ a = resolveAlert input.ts x := by
  rw [mem_visited_iff hactive hkeys] at ha
  rcases ha with ⟨hfp, b, hb, rfl⟩ | ⟨-, x, hx, hvisit⟩
  · left
    have hb := (mem_iff_lookup (nodup_evalMerged input hactive)).1 hb
    obtain ⟨smpl, hsmpl, rfl⟩ := List.mem_map.1 hfp
    obtain ⟨b', hb', hsame⟩ := merged_entryOfSample hkeys hsmpl
    obtain rfl := Option.some.inj (hb.symm.trans hb')
    exact ⟨smpl, hsmpl, b, _, hsame, visitPresent_tells env rule input.ts b,
      (visitPresent_live env rule input.ts b).trans (hsame.willBeLive input.ts)⟩
  · right
    simp only [visitMissing] at hvisit
    split at hvisit
    · cases hvisit
    · exact ⟨x, hx, (Option.some.inj hvisit).symm⟩

/-! ## The law along a run -/

omit [Float64 V] in
/-- A law about every item and what stands before it, kept when each new item has what it needs in
the old history. -/
theorem resolves_append {history stored : List (HistoryItem V)}
    (hold : ∀ before item after, history = before ++ item :: after →
      item.state = .inactive → HasAlerted before item.fingerprint)
    (hnew : ∀ item ∈ stored, item.state = .inactive → HasAlerted history item.fingerprint) :
    ∀ before item after, history ++ stored = before ++ item :: after →
      item.state = .inactive → HasAlerted before item.fingerprint := by
  intro before item after hsplit hinactive
  rcases List.append_eq_append_iff.1 hsplit with ⟨mid, rfl, hstored⟩ | ⟨mid, hhistory, hitem⟩
  · -- The item is a new one, so the whole old history stands before it.
    have hmem : item ∈ stored := by
      rw [hstored]
      exact List.mem_append_right _ List.mem_cons_self
    obtain ⟨i, hi, hfp⟩ := hnew item hmem hinactive
    exact ⟨i, List.mem_append_left _ hi, hfp⟩
  · cases mid with
    | nil =>
      rw [List.append_nil] at hhistory
      rw [← hhistory]
      apply hnew item _ hinactive
      rw [← List.nil_append stored, ← hitem]
      exact List.mem_cons_self
    | cons first mid =>
      obtain ⟨rfl, -⟩ := List.cons.inj hitem
      exact hold before item mid hhistory hinactive

/-- What holds of a rule's state between evaluations. -/
structure HistoryInvariant (env : RuleEnv V) (state : EvalState V) : Prop where
  keys : (state.active.map Prod.fst).Nodup
  states : ∀ p ∈ state.active,
    p.2.state = .inactive ∨ p.2.state = .pending ∨ p.2.state.isLive = true
  resolvedAt : ∀ p ∈ state.active, p.2.state = .inactive ↔ p.2.resolvedAt.isSome = true
  itemStates : ∀ i ∈ state.history, i.state = .inactive ∨ i.state.isAlerting = true
  live : ∀ fp, HasLiveEntry env state.active fp ↔
    ∃ i, lastItem state.history fp = some i ∧ i.state.isAlerting = true
  resolves : ∀ before item after, state.history = before ++ item :: after →
    item.state = .inactive → HasAlerted before item.fingerprint

omit [Float64 V] in
theorem HistoryInvariant.tellsTruth (h : HistoryInvariant env state) :
    HistoryTellsTruth env state where
  last := by
    intro fp item hitem
    rw [h.live fp]
    constructor
    · rintro hinactive ⟨i, hi, halert⟩
      obtain rfl := Option.some.inj (hitem.symm.trans hi)
      rw [hinactive] at halert
      cases halert
    · intro hnone
      rcases h.itemStates item (lastItem_mem hitem).1 with hinactive | halert
      · exact hinactive
      · exact absurd ⟨item, hitem, halert⟩ hnone
  resolves := h.resolves
  resolvedAt := h.resolvedAt

omit [Float64 V] in
/-- A fingerprint with a live entry has alerted. -/
theorem HistoryInvariant.hasAlerted (h : HistoryInvariant env state) {k : Nat} {x : Alert V}
    (hx : (k, x) ∈ state.active) (hlive : x.state.isLive = true) :
    HasAlerted state.history (historyFingerprint env x) := by
  obtain ⟨i, hi, halert⟩ := (h.live _).1 ⟨(k, x), hx, rfl, hlive⟩
  obtain ⟨hmem, hfp⟩ := lastItem_mem hi
  exact ⟨i, hmem, hfp, halert⟩

omit [Float64 V] in
/-- The entry of a sample is pending or live, and not resolved. -/
theorem HistoryInvariant.entryOfSample (h : HistoryInvariant env state) (rule : BaseRule V)
    (ts : Int) (smpl : Sample V) :
    ((Rules.entryOfSample env rule state ts smpl).state = .pending ∨
        (Rules.entryOfSample env rule state ts smpl).state.isLive = true) ∧
      (Rules.entryOfSample env rule state ts smpl).resolvedAt = none := by
  rcases entryOfSample_cases env rule state ts smpl with ⟨x, hx, hnot, heq⟩ | ⟨-, heq⟩
  · rw [heq]
    have hmem := (mem_iff_lookup h.keys).2 hx
    refine ⟨(h.states _ hmem).resolve_left hnot, ?_⟩
    rw [← Option.not_isSome_iff_eq_none, ← h.resolvedAt _ hmem]
    exact hnot
  · rw [heq]
    exact ⟨Or.inl rfl, rfl⟩

omit [Float64 V] in
theorem resolveAlert_state (ts : Int) (x : Alert V) : (resolveAlert ts x).state = .inactive := by
  rw [resolveAlert]
  split
  · assumption
  · rfl

/-- The live fingerprints after an evaluation are those of the samples whose entry is or gets
live. -/
theorem hasLiveEntry_visited (hactive : (state.active.map Prod.fst).Nodup)
    (hkeys : (evalKeys env rule state input).Nodup) (fp : Nat) :
    HasLiveEntry env (visitActive env rule input.ts (evalKeys env rule state input)
        (evalMerged env rule state input)) fp ↔
      ∃ smpl ∈ evalSamples env rule state input,
        historyFingerprint env (entryOfSample env rule state input.ts smpl) = fp ∧
          WillBeLive rule input.ts (entryOfSample env rule state input.ts smpl) := by
  constructor
  · rintro ⟨⟨k, a⟩, ha, rfl, hlive⟩
    rcases mem_active_cases hactive hkeys ha with
      ⟨smpl, hsmpl, b, items, hsame, htells, hwill⟩ | ⟨x, -, rfl⟩
    · refine ⟨smpl, hsmpl, ?_, hwill.1 hlive⟩
      rw [← hsame.fingerprint, historyFingerprint, historyFingerprint, htells.labels]
    · rw [resolveAlert_state] at hlive
      cases hlive
  · rintro ⟨smpl, hsmpl, rfl, hwill⟩
    obtain ⟨b, hb, hsame⟩ := merged_entryOfSample hkeys hsmpl
    have hmem := (mem_iff_lookup (nodup_evalMerged input hactive)).2 hb
    refine ⟨(alertKey env rule smpl, (visitPresent env rule input.ts b).1), ?_, ?_, ?_⟩
    · apply mem_visitActive.2
      refine ⟨b, hmem, ?_⟩
      rw [visitEntry_present (List.mem_map_of_mem hsmpl)]
    · rw [← hsame.fingerprint, historyFingerprint, historyFingerprint,
        (visitPresent_tells env rule input.ts b).labels]
    · exact (visitPresent_live env rule input.ts b).2 ((hsame.willBeLive input.ts).2 hwill)

/-- The last item tells of an alert exactly when some entry is live, after an evaluation in which
entries resolve alone. -/
theorem lastItem_evaluated (h : HistoryInvariant env state)
    (hkeys : (evalKeys env rule state input).Nodup)
    (halone : ResolvesAlone env rule state input) (fp : Nat) :
    (∃ smpl ∈ evalSamples env rule state input,
        historyFingerprint env (entryOfSample env rule state input.ts smpl) = fp ∧
          WillBeLive rule input.ts (entryOfSample env rule state input.ts smpl)) ↔
      ∃ i, ((lastItem (evalItems env rule state input) fp).or (lastItem state.history fp)) =
        some i ∧ i.state.isAlerting = true := by
  cases hlast : lastItem (evalItems env rule state input) fp with
  | some i =>
    obtain ⟨hi, rfl⟩ := lastItem_mem hlast
    rw [Option.some_or]
    rcases evalItems_cases h.keys hkeys hi with ⟨halert, hlive⟩ | ⟨hinactive, k, x, hres, hfp⟩
    · exact ⟨fun _ => ⟨i, rfl, halert⟩, fun _ => hlive⟩
    · -- An entry of the fingerprint resolves, so no other one is live.
      constructor
      · rintro ⟨smpl, hsmpl, hsame, hwill⟩
        exact absurd (hsame.trans hfp.symm) (halone.alone hkeys k x hres smpl hsmpl hwill)
      · rintro ⟨i', hi', halert⟩
        obtain rfl := Option.some.inj hi'
        rw [hinactive] at halert
        cases halert
  | none =>
    rw [Option.none_or, ← h.live fp]
    have hnone : ∀ i ∈ evalItems env rule state input, i.fingerprint ≠ fp := by
      rintro i hi rfl
      obtain ⟨l, hl⟩ := exists_lastItem hi
      rw [hlast] at hl
      cases hl
    constructor
    · rintro ⟨smpl, hsmpl, hfp, hwill⟩
      -- Without an item the entry was live before.
      have hlive : (entryOfSample env rule state input.ts smpl).state.isLive = true := by
        by_contra hnot
        obtain ⟨i, hi, hsame⟩ := evalItems_of_fires h.keys hkeys hsmpl hwill hnot
        exact hnone i hi (hsame.trans hfp)
      rcases entryOfSample_cases env rule state input.ts smpl with ⟨x, hx, -, heq⟩ | ⟨-, heq⟩
      · rw [heq] at hlive hfp
        exact ⟨_, (mem_iff_lookup h.keys).2 hx, hfp, hlive⟩
      · rw [heq] at hlive
        cases hlive
    · rintro ⟨⟨k, x⟩, hx, hfp, hlive⟩
      have hnot : x.state ≠ .inactive := by
        intro hinactive
        rw [hinactive] at hlive
        cases hlive
      -- Without an item the entry has a sample.
      have hk : k ∈ evalKeys env rule state input := by
        by_contra hk
        obtain ⟨i, hi, hsame⟩ := evalItems_of_resolves h.keys hkeys ⟨hx, hnot, hk⟩
        exact hnone i hi (hsame.trans hfp)
      obtain ⟨smpl, hsmpl, rfl⟩ := List.mem_map.1 hk
      have hlookup := (mem_iff_lookup h.keys).1 hx
      have heq : entryOfSample env rule state input.ts smpl = x := by
        simp only [entryOfSample, hlookup, if_neg hnot]
      exact ⟨smpl, hsmpl, by rw [heq]; exact hfp, by rw [heq]; exact Or.inl hlive⟩

/-- An evaluation in which entries resolve alone keeps the invariant. -/
theorem historyInvariant_step {after : EvalState V} (h : HistoryInvariant env state)
    (halone : ResolvesAlone env rule state input)
    (hstep : evalStep env rule state input = some after) : HistoryInvariant env after := by
  obtain rfl := Option.some.inj hstep
  rcases eval_cases env rule state input with ⟨hsame, hhistory, -⟩ | ⟨-, hkeys, last, heval⟩
  · -- A failed evaluation leaves map and history alone.
    have hstates := h.states
    have hresolved := h.resolvedAt
    have hlive := h.live
    rw [← hsame] at hstates hresolved hlive
    rw [← hhistory] at hlive
    exact ⟨nodup_eval input h.keys, hstates, hresolved, hhistory ▸ h.itemStates, hlive,
      hhistory ▸ h.resolves⟩
  · have hactive : (eval env rule state input).1.active = _ :=
      heval ▸ applyAlerts_active state input last
    have hhistory : (eval env rule state input).1.history = _ :=
      heval ▸ applyAlerts_history state input last
    have hitems : ∀ i ∈ evalItems env rule state input, i.state = .inactive →
        HasAlerted state.history i.fingerprint := by
      intro i hi hinactive
      rcases evalItems_cases h.keys hkeys hi with ⟨halert, -⟩ | ⟨-, k, x, hres, hfp⟩
      · rw [hinactive] at halert
        cases halert
      · rw [← hfp]
        rcases (h.states _ hres.entry).resolve_left hres.notInactive with hpending | hlive
        · exact halone.pending hkeys k x hres hpending
        · exact h.hasAlerted hres.entry hlive
    refine ⟨nodup_eval input h.keys, ?_, ?_, ?_, ?_, ?_⟩
    · rw [hactive]
      rintro ⟨k, a⟩ ha
      rcases mem_active_cases h.keys hkeys ha with
        ⟨smpl, -, b, items, hsame, htells, -⟩ | ⟨x, -, rfl⟩
      · rcases htells.state with hlive | hkept
        · exact Or.inr (Or.inr hlive)
        · rw [hkept, hsame.state]
          exact Or.inr (h.entryOfSample rule input.ts smpl).1
      · exact Or.inl (resolveAlert_state input.ts x)
    · rw [hactive]
      rintro ⟨k, a⟩ ha
      rcases mem_active_cases h.keys hkeys ha with
        ⟨smpl, -, b, items, hsame, htells, -⟩ | ⟨x, hx, rfl⟩
      · -- An entry with a sample is neither inactive nor resolved.
        obtain ⟨hstate, hnone⟩ := h.entryOfSample rule input.ts smpl
        have hresolved : a.resolvedAt = none :=
          htells.resolvedAt.trans (hsame.resolvedAt.trans hnone)
        simp only [hresolved, Option.isSome_none, Bool.false_eq_true, iff_false]
        intro hinactive
        rcases htells.state with hlive | hkept
        · rw [hinactive] at hlive
          cases hlive
        · rw [← hsame.state, ← hkept, hinactive] at hstate
          rcases hstate with hpending | hlive
          · cases hpending
          · cases hlive
      · rw [resolveAlert]
        split
        · exact h.resolvedAt _ hx
        · exact ⟨fun _ => rfl, fun _ => rfl⟩
    · rw [hhistory]
      intro i hi
      rcases mem_recorded hi with hold | hnew
      · exact h.itemStates i hold
      · rcases evalItems_cases h.keys hkeys hnew with ⟨halert, -⟩ | ⟨hinactive, -⟩
        · exact Or.inr halert
        · exact Or.inl hinactive
    · intro fp
      rw [hactive, hhistory, hasLiveEntry_visited h.keys hkeys, lastItem_recorded]
      exact lastItem_evaluated h hkeys halone fp
    · rw [hhistory, recordRuleStateHistory]
      apply resolves_append h.resolves
      intro i hi
      obtain ⟨p, hp, rfl⟩ := List.mem_map.1 hi
      exact hitems _ (mem_revisedItems hp).1

end Step

theorem historyInvariant_new : HistoryInvariant env (.new : EvalState V) where
  keys := List.nodup_nil
  states := nofun
  resolvedAt := nofun
  itemStates := nofun
  live := by
    intro fp
    constructor
    · rintro ⟨p, hp, -⟩
      cases hp
    · rintro ⟨i, hi, -⟩
      cases hi
  resolves := by
    intro before item after hsplit
    cases before <;> cases hsplit

/-- The recorded history tells the truth: after every run whose evaluations all let entries resolve
alone, the last item of a fingerprint is Inactive exactly when no alert of it is firing or
recovering, every Inactive item has an item before it that tells of an alert, and an alert is
Inactive exactly when it has a resolved time. -/
theorem history_tells_truth [Float64 V] (inputs : List (EvalInput V)) (state : EvalState V)
    (halone : StepsMeet (evalStep env rule) (ResolvesAlone env rule) .new inputs)
    (hrun : exec (evalStep env rule) .new inputs = some state) : HistoryTellsTruth env state := by
  apply HistoryInvariant.tellsTruth
  apply exec_invariant_of_stepsMeet (I := fun _ s => HistoryInvariant env s)
    (historyInvariant_new env) _ inputs state halone hrun
  exact fun _ s input t hs hmeets hstep => historyInvariant_step hs hmeets hstep

/-! ## Histories that do not tell the truth -/

/-- A label that shows the value of the sample. -/
def valueTemplate : String := "\x7b\x7b$value\x7d\x7d"

def valueRule : BaseRule ℚ := { latencyRule with labels := [⟨"level", valueTemplate⟩] }

/-- Surroundings that expand the value template, for values of three and of four digits. -/
def valueEnv : RuleEnv ℚ :=
  { plainEnv with
    format := fun v _ => if v < 1000 then "150" else "1500"
    expand := fun _ value _ text => if text = valueTemplate then value else text }

/-- Visit the newest entry first. -/
def newestFirst : MapOrder ℚ := ⟨List.reverse, List.reverse_perm⟩

/-- The value rises, so the label and with it the key of the alert change. -/
def valueRises : List (EvalInput ℚ) :=
  [reading 1 150, { reading 2 1500 with order := newestFirst }]

/-- The latency rule with five minutes to hold. Rules are made without a hold duration so far, and
only such a field keeps an alert pending. -/
def holdingRule : BaseRule ℚ := { latencyRule with holdDuration := 5 * 60 * 10 ^ 9 }

/-- An alert that moves to another key is recorded as resolved though it is firing; and under a hold
duration, a pending alert that vanishes is recorded as resolved though it never fired. -/
theorem history_tells_of_no_alert :
    (∃ state, exec (evalStep valueEnv valueRule) .new valueRises = some state ∧
        ¬ HistoryTellsTruth valueEnv state) ∧
      ∃ state, exec (evalStep plainEnv holdingRule) .new [reading 1 150, reading 2 50] = some state ∧
        ¬ HistoryTellsTruth plainEnv state := by
  constructor
  · refine ⟨_, rfl, ?_⟩
    intro htruth
    have hlast : (lastItem (eval valueEnv valueRule (eval valueEnv valueRule .new (reading 1 150)).1
        { reading 2 1500 with order := newestFirst }).1.history 38).map HistoryItem.state =
          some .inactive := by decide +kernel
    have hlive : ((eval valueEnv valueRule (eval valueEnv valueRule .new (reading 1 150)).1
        { reading 2 1500 with order := newestFirst }).1.active.any fun p =>
          historyFingerprint valueEnv p.2 = 38 && p.2.state.isLive) = true := by decide +kernel
    obtain ⟨item, hitem, hinactive⟩ := Option.map_eq_some_iff.1 hlast
    obtain ⟨p, hp, hflags⟩ := List.any_eq_true.1 hlive
    obtain ⟨hfp, hstate⟩ := Bool.and_eq_true_iff.1 hflags
    exact (htruth.last 38 item hitem).1 hinactive ⟨p, hp, of_decide_eq_true hfp, hstate⟩
  · refine ⟨_, rfl, ?_⟩
    intro htruth
    have hitems : (eval plainEnv holdingRule (eval plainEnv holdingRule .new (reading 1 150)).1
        (reading 2 50)).1.history.map HistoryItem.state = [.inactive] := by decide +kernel
    obtain ⟨item, hhistory, hinactive⟩ := List.map_eq_singleton_iff.1 hitems
    -- Nothing stands before the only item.
    obtain ⟨i, hi, -⟩ := htruth.resolves [] item [] hhistory hinactive
    cases hi

/-- Fire and resolve. -/
theorem history_tells_truth_resolves :
    ∃ state, exec (evalStep plainEnv latencyRule) .new [reading 1 150, reading 2 50] = some state ∧
      state.history.map HistoryItem.state = [.firing, .inactive] ∧
      HistoryTellsTruth plainEnv state := by
  refine ⟨_, rfl, by decide +kernel, ?_⟩
  apply history_tells_truth plainEnv latencyRule [reading 1 150, reading 2 50] _ _ rfl
  have hempty : ∀ k x, ¬ Resolves plainEnv latencyRule .new (reading 1 150) k x := by
    rintro k x ⟨hentry, -, -⟩
    cases hentry
  refine ⟨⟨fun _ k x h => absurd h (hempty k x), fun _ k x h => absurd h (hempty k x)⟩, ?_⟩
  intro fired hfired
  obtain rfl := Option.some.inj hfired
  have hfiring : ((eval plainEnv latencyRule .new (reading 1 150)).1.active.all fun p =>
      p.2.state = .firing) = true := by decide +kernel
  have hnone : evalSamples plainEnv latencyRule
      (eval plainEnv latencyRule .new (reading 1 150)).1 (reading 2 50) = [] := by
    rw [← List.isEmpty_iff]
    decide +kernel
  refine ⟨⟨?_, ?_⟩, fun _ _ => trivial⟩
  · intro _ k x hres hpending
    have hstate := of_decide_eq_true (List.all_eq_true.1 hfiring _ hres.entry)
    rw [hpending] at hstate
    cases hstate
  · intro _ k x _ smpl hsmpl
    rw [hnone] at hsmpl
    cases hsmpl

end Signoz.Rules
