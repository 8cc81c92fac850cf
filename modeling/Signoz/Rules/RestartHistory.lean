import Signoz.Lib.LatestRows
import Signoz.Rules.StateHistory

/-!
# The state history across a restart

`RecordRuleStateHistory` of the module `rulestatehistory` and `GetLastSavedRuleStateHistory` of its
store. The first batch of items after a restart is compared with the last saved row of every
fingerprint: a fingerprint that was Firing or NoData and has no item becomes Inactive, one whose
state is the same gets no row, and the overall state is computed from the rows that are written.

The states of the fingerprints come out right (`statesKept`). The overall state does not take part
in what is unchanged: `restart_stays_true_iff` says exactly when it and its flags are right.
-/

namespace Signoz.Rules

open Signoz.Querier Lib.LatestRows Lib.KeyedFold

variable {V : Type}

/-! ## The store -/

/-- `StateFiring` or `StateNoData`. -/
def AlertState.isFiringOrNoData : AlertState → Bool
  | .firing => true
  | .noData => true
  | _ => false

/-- What `ORDER BY unix_milli DESC` does to rows. -/
structure RowOrder (V : Type) where
  sort : List (HistoryItem V) → List (HistoryItem V)
  newestFirst : ∀ rows, NewestFirst HistoryItem.unixMilli rows (sort rows)

/-- The rows of a rule with a changed state. -/
def changedRows (ruleID : String) (history : List (HistoryItem V)) : List (HistoryItem V) :=
  history.filter fun i => i.ruleID = ruleID && i.stateChanged

/-- `GetLastSavedRuleStateHistory`. -/
def getLastSavedRuleStateHistory (order : RowOrder V) (ruleID : String)
    (history : List (HistoryItem V)) : List (HistoryItem V) :=
  limitOneBy HistoryItem.fingerprint [] (order.sort (changedRows ruleID history))

/-! ## RecordRuleStateHistory -/

/-- The row written for the last saved row of a fingerprint; `clock` is the time at which the loop
gets to a row. -/
def reviseSaved (clock : HistoryItem V → Int) (current : List (Nat × HistoryItem V))
    (item : HistoryItem V) : Option (HistoryItem V) :=
  match current.lookup item.fingerprint with
  | none =>
    if item.state.isFiringOrNoData then
      some { item with state := .inactive, stateChanged := true, unixMilli := clock item }
    else none
  | some currentState =>
    if item.state ≠ currentState.state then
      some { item with
        state := currentState.state, stateChanged := true, unixMilli := clock item }
    else none

/-- The loop over the items: those of fingerprints that were not saved are added. -/
def addUnsaved (lastSaved revised items : List (HistoryItem V)) : List (HistoryItem V) :=
  items.foldl
    (fun revised item =>
      if revised.any (fun r => r.fingerprint = item.fingerprint) ||
          lastSaved.any (fun r => r.fingerprint = item.fingerprint) then revised
      else revised ++ [item])
    revised

/-- The rows after both loops. -/
def revisedItemsToAdd (clock : HistoryItem V → Int) (lastSaved items : List (HistoryItem V)) :
    List (HistoryItem V) :=
  addUnsaved lastSaved (lastSaved.filterMap (reviseSaved clock (revisedItems items))) items

/-- `newState`. -/
def newOverallState (revised : List (HistoryItem V)) : AlertState :=
  if revised.any fun item => item.state.isFiringOrNoData then .firing else .inactive

/-- The rows with the new overall state, where it differs from the old one. -/
def withOverallState (old : AlertState) (revised : List (HistoryItem V)) : List (HistoryItem V) :=
  if old ≠ newOverallState revised then
    revised.map fun item =>
      { item with overallState := newOverallState revised, overallStateChanged := true }
  else revised

/-- The rows that `RecordRuleStateHistory` adds. -/
def entriesToAdd (order : RowOrder V) (clock : HistoryItem V → Int) (ruleID : String)
    (handledRestart : Bool) (history itemsToAdd : List (HistoryItem V)) : List (HistoryItem V) :=
  let lastSavedState := getLastSavedRuleStateHistory order ruleID history
  match handledRestart, lastSavedState with
  | false, newest :: _ =>
    withOverallState newest.overallState (revisedItemsToAdd clock lastSavedState itemsToAdd)
  | _, _ => (revisedItems itemsToAdd).map Prod.snd

/-- The table and the flag of the rule. -/
structure Recorder (V : Type) where
  history : List (HistoryItem V)
  handledRestart : Bool

/-- `BaseRule.RecordRuleStateHistory`, where the queries may fail. -/
def Recorder.record (order : RowOrder V) (clock : HistoryItem V → Int) (ruleID : String)
    (succeeds : Bool) (r : Recorder V) (itemsToAdd : List (HistoryItem V)) : Recorder V :=
  if succeeds then
    ⟨r.history ++ entriesToAdd order clock ruleID r.handledRestart r.history itemsToAdd, true⟩
  else r

/-! ## The law -/

/-- The last row of some fingerprint is Firing or NoData. -/
def SomeAlerts (rows : List (HistoryItem V)) : Prop :=
  ∃ r, IsLast HistoryItem.fingerprint HistoryItem.unixMilli rows r ∧
    r.state.isFiringOrNoData = true

/-- A history whose newest row tells whether some fingerprint alerts. -/
structure SavedHistory (rows : List (HistoryItem V)) : Prop where
  notEmpty : rows ≠ []
  timesDiffer : TimesDiffer HistoryItem.fingerprint HistoryItem.unixMilli rows
  overall : ∀ newest, IsNewest HistoryItem.unixMilli rows newest →
    (newest.overallState = .firing ↔ SomeAlerts rows)

/-- Items of an evaluation of the rule, with distinct fingerprints. -/
structure RuleItems (ruleID : String) (items : List (HistoryItem V)) : Prop where
  distinct : (items.map HistoryItem.fingerprint).Nodup
  ofRule : ∀ item ∈ items, item.ruleID = ruleID
  changed : ∀ item ∈ items, item.stateChanged = true

/-- Evaluation and clock are later than every row. -/
structure IsLater (rows items : List (HistoryItem V)) (clock : HistoryItem V → Int) : Prop where
  items : ∀ r ∈ rows, ∀ item ∈ items, r.unixMilli < item.unixMilli
  clock : ∀ r ∈ rows, ∀ saved ∈ rows, r.unixMilli < clock saved

/-- The state that a fingerprint with this last row has afterwards. -/
def stateAfter (items : List (HistoryItem V)) (r : HistoryItem V) : AlertState :=
  match lastItem items r.fingerprint with
  | some item => item.state
  | none => if r.state.isFiringOrNoData then .inactive else r.state

/-- The last rows of the fingerprints have the states they should have: that of the item, or
Inactive without one when they alerted, or the one they had. -/
structure StatesKept (before items after : List (HistoryItem V)) : Prop where
  fingerprints : ∀ fp, (∃ r ∈ after, r.fingerprint = fp) ↔
    (∃ item ∈ items, item.fingerprint = fp) ∨ ∃ r ∈ before, r.fingerprint = fp
  listed : ∀ r', IsLast HistoryItem.fingerprint HistoryItem.unixMilli after r' →
    ∀ item ∈ items, item.fingerprint = r'.fingerprint → r'.state = item.state
  resolved : ∀ r', IsLast HistoryItem.fingerprint HistoryItem.unixMilli after r' →
    (∀ item ∈ items, item.fingerprint ≠ r'.fingerprint) →
      ∀ r, IsLast HistoryItem.fingerprint HistoryItem.unixMilli before r →
        r.fingerprint = r'.fingerprint → r.state.isFiringOrNoData = true → r'.state = .inactive
  unchanged : ∀ r', IsLast HistoryItem.fingerprint HistoryItem.unixMilli after r' →
    (∀ item ∈ items, item.fingerprint ≠ r'.fingerprint) →
      ∀ r, IsLast HistoryItem.fingerprint HistoryItem.unixMilli before r →
        r.fingerprint = r'.fingerprint → r.state.isFiringOrNoData = false → r'.state = r.state

/-- The newest row tells whether some fingerprint alerts, and the flag of the new rows whether the
overall state differs from before. -/
structure OverallKept (old : AlertState) (new after : List (HistoryItem V)) : Prop where
  overall : ∀ newest, IsNewest HistoryItem.unixMilli after newest →
    (newest.overallState = .firing ↔ SomeAlerts after)
  changed : ∀ newest, IsNewest HistoryItem.unixMilli after newest → ∀ r ∈ new,
    (r.overallStateChanged = true ↔ newest.overallState ≠ old)

/-! ## When the overall state is kept -/

section Condition

variable (before items : List (HistoryItem V)) (clock : HistoryItem V → Int)

/-- A saved fingerprint changes its state. -/
def Changes (r : HistoryItem V) : Prop := stateAfter items r ≠ r.state

/-- The fingerprint of an item was not saved. -/
def Unsaved (item : HistoryItem V) : Prop := ∀ r ∈ before, r.fingerprint ≠ item.fingerprint

/-- Some fingerprint changes to Firing or NoData. -/
def NewlyAlerts : Prop :=
  (∃ r, IsLast HistoryItem.fingerprint HistoryItem.unixMilli before r ∧ Changes items r ∧
    (stateAfter items r).isFiringOrNoData = true) ∨
  ∃ item ∈ items, Unsaved before item ∧ item.state.isFiringOrNoData = true

/-- Some fingerprint stays Firing or NoData. -/
def StaysAlerting : Prop :=
  ∃ r, IsLast HistoryItem.fingerprint HistoryItem.unixMilli before r ∧ ¬ Changes items r ∧
    r.state.isFiringOrNoData = true

/-- Where a row is written, the overall state and the flag that it is copied with: those of the
last row of a fingerprint that changes, or those of an item. -/
inductive Carries : Int → AlertState → Bool → Prop where
  | saved {r : HistoryItem V} :
      IsLast HistoryItem.fingerprint HistoryItem.unixMilli before r → Changes items r →
        Carries (clock r) r.overallState r.overallStateChanged
  | item {i : HistoryItem V} :
      i ∈ items → Unsaved before i → Carries i.unixMilli i.overallState i.overallStateChanged

/-- What is copied is right for an overall state that stays the same. -/
def CarriesRight (old : AlertState) : Prop :=
  ∀ t s c, Carries before items clock t s c →
    (∀ t' s' c', Carries before items clock t' s' c' → t' ≤ t) →
      (s = .firing ↔ old = .firing) ∧
        ∀ t' s' c', Carries before items clock t' s' c' → (c' = true ↔ s ≠ old)

/-- The overall state is kept: no row is written, or the overall state changes and nothing that
stays alerting is overlooked, or it stays and what is copied with the rows is right. -/
inductive RestartFits (old : AlertState) : Prop where
  | nothing : (∀ t s c, ¬ Carries before items clock t s c) → RestartFits old
  | fires : NewlyAlerts before items → old ≠ .firing → RestartFits old
  | ends : ¬ NewlyAlerts before items → old ≠ .inactive → ¬ StaysAlerting before items →
      RestartFits old
  | staysFiring : NewlyAlerts before items → old = .firing →
      CarriesRight before items clock old → RestartFits old
  | staysInactive : ¬ NewlyAlerts before items → old = .inactive →
      CarriesRight before items clock old → RestartFits old

end Condition

/-! ## The rows that are written -/

section Rows

variable {order : RowOrder V} {clock : HistoryItem V → Int} {ruleID : String}
variable {history items lastSaved revised : List (HistoryItem V)}

/-- The row for a saved fingerprint that changes. -/
def revisedRow (items : List (HistoryItem V)) (clock : HistoryItem V → Int) (r : HistoryItem V) :
    HistoryItem V :=
  { r with state := stateAfter items r, stateChanged := true, unixMilli := clock r }

theorem revisedItems_lookup (items : List (HistoryItem V)) (fp : Nat) :
    (revisedItems items).lookup fp = lastItem items fp := by
  have hitems : itemsOf fp (items.map fun i => (i.fingerprint, i)) =
      items.filter fun i => i.fingerprint = fp := by
    rw [itemsOf, List.filter_map, List.map_map]
    exact List.map_id _
  rw [lookup_accumulate, List.lookup_nil, foldItems_replace_eq_getLast?, hitems, lastItem]

theorem lastItem_eq_none_iff {fp : Nat} :
    lastItem items fp = none ↔ ∀ item ∈ items, item.fingerprint ≠ fp := by
  rw [lastItem, List.getLast?_eq_none_iff, List.filter_eq_nil_iff]
  simp

/-- Of items with distinct fingerprints, the last of a fingerprint is its only one. -/
theorem lastItem_of_mem (hdistinct : (items.map HistoryItem.fingerprint).Nodup)
    {item : HistoryItem V} (hitem : item ∈ items) :
    lastItem items item.fingerprint = some item := by
  cases hlast : lastItem items item.fingerprint with
  | none => exact absurd rfl (lastItem_eq_none_iff.1 hlast item hitem)
  | some i =>
    obtain ⟨hmem, hfp⟩ := lastItem_mem hlast
    rw [List.inj_on_of_nodup_map hdistinct hmem hitem hfp]

theorem reviseSaved_eq_some_iff {r r' : HistoryItem V} :
    reviseSaved clock (revisedItems items) r = some r' ↔
      Changes items r ∧ revisedRow items clock r = r' := by
  rw [reviseSaved, revisedItems_lookup, Changes, revisedRow, stateAfter]
  cases hlast : lastItem items r.fingerprint with
  | some item =>
    by_cases hsame : r.state = item.state
    · simp [hsame]
    · simp [hsame, Ne.symm hsame]
  | none =>
    cases halerts : r.state.isFiringOrNoData with
    | false => simp
    | true =>
      have hne : AlertState.inactive ≠ r.state := by
        intro heq
        rw [← heq] at halerts
        cases halerts
      simp [hne]

/-- The rows after the loop over the items: those before, and the items whose fingerprints are
neither saved nor among them. -/
theorem mem_addUnsaved (hdistinct : (items.map HistoryItem.fingerprint).Nodup)
    {r : HistoryItem V} :
    r ∈ addUnsaved lastSaved revised items ↔
      r ∈ revised ∨ (r ∈ items ∧ (∀ r' ∈ revised, r'.fingerprint ≠ r.fingerprint) ∧
        ∀ r' ∈ lastSaved, r'.fingerprint ≠ r.fingerprint) := by
  induction items generalizing revised with
  | nil => simp [addUnsaved]
  | cons item rest ih =>
    rw [List.map_cons, List.nodup_cons] at hdistinct
    have hstep : addUnsaved lastSaved revised (item :: rest) =
        addUnsaved lastSaved
          (if revised.any (fun r => r.fingerprint = item.fingerprint) ||
              lastSaved.any (fun r => r.fingerprint = item.fingerprint) then revised
            else revised ++ [item]) rest := rfl
    rw [hstep, ih hdistinct.2]
    have hother : r ∈ rest → item.fingerprint ≠ r.fingerprint := by
      intro hr heq
      exact hdistinct.1 (heq ▸ List.mem_map_of_mem hr)
    by_cases hskip : (revised.any (fun r => r.fingerprint = item.fingerprint) ||
        lastSaved.any (fun r => r.fingerprint = item.fingerprint)) = true
    · rw [if_pos hskip]
      -- The item is left out, by a row of its fingerprint.
      have hitem : ¬ (r = item ∧ (∀ r' ∈ revised, r'.fingerprint ≠ r.fingerprint) ∧
          ∀ r' ∈ lastSaved, r'.fingerprint ≠ r.fingerprint) := by
        rintro ⟨rfl, hrevised, hsaved⟩
        rw [Bool.or_eq_true, List.any_eq_true, List.any_eq_true] at hskip
        rcases hskip with ⟨r', hr', hfp⟩ | ⟨r', hr', hfp⟩
        · exact hrevised r' hr' (of_decide_eq_true hfp)
        · exact hsaved r' hr' (of_decide_eq_true hfp)
      rw [List.mem_cons, or_and_right, or_iff_right hitem]
    · rw [if_neg hskip]
      have hfree : (∀ r' ∈ revised, r'.fingerprint ≠ item.fingerprint) ∧
          ∀ r' ∈ lastSaved, r'.fingerprint ≠ item.fingerprint := by
        rw [Bool.or_eq_true, not_or, List.any_eq_true, List.any_eq_true] at hskip
        refine ⟨fun r' hr' hfp => ?_, fun r' hr' hfp => ?_⟩
        · exact hskip.1 ⟨r', hr', decide_eq_true hfp⟩
        · exact hskip.2 ⟨r', hr', decide_eq_true hfp⟩
      constructor
      · rintro (hmem | ⟨hrest, hrevised, hsaved⟩)
        · rcases List.mem_append.1 hmem with hmem | hmem
          · exact Or.inl hmem
          · obtain rfl := List.mem_singleton.1 hmem
            exact Or.inr ⟨List.mem_cons_self, hfree⟩
        · exact Or.inr ⟨List.mem_cons_of_mem _ hrest,
            fun r' hr' => hrevised r' (List.mem_append_left _ hr'), hsaved⟩
      · rintro (hmem | ⟨hitems, hrevised, hsaved⟩)
        · exact Or.inl (List.mem_append_left _ hmem)
        · rcases List.mem_cons.1 hitems with rfl | hrest
          · exact Or.inl (List.mem_append_right _ List.mem_cons_self)
          · refine Or.inr ⟨hrest, ?_, hsaved⟩
            intro r' hr'
            rcases List.mem_append.1 hr' with hr' | hr'
            · exact hrevised r' hr'
            · obtain rfl := List.mem_singleton.1 hr'
              exact hother hrest

theorem nodup_addUnsaved (hrevised : (revised.map HistoryItem.fingerprint).Nodup) :
    ((addUnsaved lastSaved revised items).map HistoryItem.fingerprint).Nodup := by
  induction items generalizing revised with
  | nil => exact hrevised
  | cons item rest ih =>
    rw [addUnsaved, List.foldl_cons]
    apply ih
    split
    · exact hrevised
    · rename_i hskip
      rw [Bool.or_eq_true, not_or, List.any_eq_true] at hskip
      rw [List.map_append, List.nodup_append']
      refine ⟨hrevised, List.nodup_singleton _, ?_⟩
      intro fp hfp hitem
      obtain ⟨r, hr, rfl⟩ := List.mem_map.1 hfp
      exact hskip.1 ⟨r, hr, decide_eq_true (List.mem_singleton.1 hitem)⟩

/-- What becomes of a row when the overall state is known. -/
def finalRow (old new : AlertState) (r : HistoryItem V) : HistoryItem V :=
  if old ≠ new then { r with overallState := new, overallStateChanged := true } else r

theorem withOverallState_eq_map (old : AlertState) (revised : List (HistoryItem V)) :
    withOverallState old revised = revised.map (finalRow old (newOverallState revised)) := by
  rw [withOverallState]
  split
  · rename_i hne
    apply List.map_congr_left
    intro r _
    rw [finalRow, if_pos hne]
  · rename_i hsame
    have hid : ∀ r : HistoryItem V, finalRow old (newOverallState revised) r = r := by
      intro r
      rw [finalRow, if_neg hsame]
    rw [List.map_congr_left fun r _ => hid r, List.map_id']

variable {old new : AlertState}

@[simp] theorem finalRow_fingerprint (r : HistoryItem V) :
    (finalRow old new r).fingerprint = r.fingerprint := by
  rw [finalRow]
  split <;> rfl

@[simp] theorem finalRow_unixMilli (r : HistoryItem V) :
    (finalRow old new r).unixMilli = r.unixMilli := by
  rw [finalRow]
  split <;> rfl

@[simp] theorem finalRow_state (r : HistoryItem V) : (finalRow old new r).state = r.state := by
  rw [finalRow]
  split <;> rfl

@[simp] theorem finalRow_ruleID (r : HistoryItem V) : (finalRow old new r).ruleID = r.ruleID := by
  rw [finalRow]
  split <;> rfl

@[simp] theorem finalRow_stateChanged (r : HistoryItem V) :
    (finalRow old new r).stateChanged = r.stateChanged := by
  rw [finalRow]
  split <;> rfl

theorem isNewest_map_finalRow_iff {w : HistoryItem V} :
    IsNewest HistoryItem.unixMilli (revised.map (finalRow old new)) w ↔
      ∃ r, IsNewest HistoryItem.unixMilli revised r ∧ finalRow old new r = w := by
  constructor
  · rintro ⟨hw, hnewest⟩
    obtain ⟨r, hr, rfl⟩ := List.mem_map.1 hw
    refine ⟨r, ⟨hr, ?_⟩, rfl⟩
    intro r' hr'
    have h := hnewest _ (List.mem_map_of_mem hr')
    rwa [finalRow_unixMilli, finalRow_unixMilli] at h
  · rintro ⟨r, ⟨hr, hnewest⟩, rfl⟩
    refine ⟨List.mem_map_of_mem hr, ?_⟩
    intro w' hw'
    obtain ⟨r', hr', rfl⟩ := List.mem_map.1 hw'
    rw [finalRow_unixMilli, finalRow_unixMilli]
    exact hnewest r' hr'

theorem newOverallState_eq_firing_iff :
    newOverallState revised = .firing ↔ ∃ r ∈ revised, r.state.isFiringOrNoData = true := by
  rw [newOverallState, ← List.any_eq_true]
  split
  · rename_i hany
    exact iff_of_true rfl hany
  · rename_i hany
    exact iff_of_false nofun hany

theorem newOverallState_eq_inactive_iff :
    newOverallState revised = .inactive ↔ newOverallState revised ≠ .firing := by
  rw [newOverallState]
  split
  · exact iff_of_false nofun (fun h => h rfl)
  · exact iff_of_true rfl nofun

end Rows

/-! ## The first batch after a restart -/

section Restart

variable (order : RowOrder V) (clock : HistoryItem V → Int) (ruleID : String)
variable (history items : List (HistoryItem V))

/-- `lastSavedState[0].OverallState`. -/
def savedOverallState : AlertState :=
  ((getLastSavedRuleStateHistory order ruleID history).head?.map HistoryItem.overallState).getD
    .inactive

/-- The rows after both loops, over what was saved. -/
def restartRows : List (HistoryItem V) :=
  revisedItemsToAdd clock (getLastSavedRuleStateHistory order ruleID history) items

/-- The rows written by the first batch after a restart. -/
def restartEntries : List (HistoryItem V) := entriesToAdd order clock ruleID false history items

variable {order clock ruleID history items}

theorem mem_getLastSavedRuleStateHistory
    (hsaved : SavedHistory (changedRows ruleID history)) {r : HistoryItem V} :
    r ∈ getLastSavedRuleStateHistory order ruleID history ↔
      IsLast HistoryItem.fingerprint HistoryItem.unixMilli (changedRows ruleID history) r :=
  mem_limitOneBy_iff (order.newestFirst _) hsaved.timesDiffer

theorem mem_restartRows (hsaved : SavedHistory (changedRows ruleID history))
    (hitems : RuleItems ruleID items) {r' : HistoryItem V} :
    r' ∈ restartRows order clock ruleID history items ↔
      (∃ r, IsLast HistoryItem.fingerprint HistoryItem.unixMilli (changedRows ruleID history) r ∧
        Changes items r ∧ revisedRow items clock r = r') ∨
      (r' ∈ items ∧ Unsaved (changedRows ruleID history) r') := by
  have hsavedRow : ∀ {r'},
      r' ∈ (getLastSavedRuleStateHistory order ruleID history).filterMap
          (reviseSaved clock (revisedItems items)) ↔
        ∃ r, IsLast HistoryItem.fingerprint HistoryItem.unixMilli (changedRows ruleID history) r ∧
          Changes items r ∧ revisedRow items clock r = r' := by
    intro r'
    simp only [List.mem_filterMap, reviseSaved_eq_some_iff, mem_getLastSavedRuleStateHistory hsaved]
  have hunsaved : Unsaved (changedRows ruleID history) r' ↔
      ∀ r ∈ getLastSavedRuleStateHistory order ruleID history, r.fingerprint ≠ r'.fingerprint := by
    constructor
    · intro h r hr
      exact h r ((mem_getLastSavedRuleStateHistory hsaved).1 hr).1
    · intro h r hr hfp
      obtain ⟨last, hlast, hsame⟩ := exists_isLast HistoryItem.fingerprint
        HistoryItem.unixMilli hr
      exact h last ((mem_getLastSavedRuleStateHistory hsaved).2 hlast) (hsame.trans hfp)
  rw [restartRows, revisedItemsToAdd, mem_addUnsaved hitems.distinct, hsavedRow, hunsaved]
  apply or_congr_right
  apply and_congr_right
  intro _
  apply and_iff_right_of_imp
  -- A row that was revised has the fingerprint of a saved one.
  intro h r hr
  obtain ⟨saved, hlast, -, rfl⟩ := hsavedRow.1 hr
  exact h saved ((mem_getLastSavedRuleStateHistory hsaved).2 hlast)

theorem nodup_restartRows :
    ((restartRows order clock ruleID history items).map HistoryItem.fingerprint).Nodup := by
  apply nodup_addUnsaved
  have hsaved := nodup_limitOneBy HistoryItem.fingerprint []
    (order.sort (changedRows ruleID history))
  rw [← getLastSavedRuleStateHistory] at hsaved
  generalize getLastSavedRuleStateHistory order ruleID history = lastSaved at hsaved
  induction lastSaved with
  | nil => exact List.nodup_nil
  | cons r rest ih =>
    rw [List.map_cons, List.nodup_cons] at hsaved
    rw [List.filterMap_cons]
    cases hrevise : reviseSaved clock (revisedItems items) r with
    | none => exact ih hsaved.2
    | some r' =>
      rw [List.map_cons, List.nodup_cons]
      refine ⟨?_, ih hsaved.2⟩
      intro hmem
      obtain ⟨-, rfl⟩ := reviseSaved_eq_some_iff.1 hrevise
      obtain ⟨other, hother, hfp⟩ := List.mem_map.1 hmem
      obtain ⟨saved, hmem, hsome⟩ := List.mem_filterMap.1 hother
      obtain ⟨-, rfl⟩ := reviseSaved_eq_some_iff.1 hsome
      exact hsaved.1 (List.mem_map.2 ⟨saved, hmem, hfp⟩)

theorem restartEntries_eq (hsaved : SavedHistory (changedRows ruleID history)) :
    restartEntries order clock ruleID history items =
      (restartRows order clock ruleID history items).map
        (finalRow (savedOverallState order ruleID history)
          (newOverallState (restartRows order clock ruleID history items))) := by
  rw [← withOverallState_eq_map, restartRows, savedOverallState]
  cases hlast : getLastSavedRuleStateHistory order ruleID history with
  | nil =>
    obtain ⟨r, hr⟩ := List.exists_mem_of_ne_nil _ hsaved.notEmpty
    obtain ⟨last, hmem, -⟩ := exists_isLast HistoryItem.fingerprint
      HistoryItem.unixMilli hr
    have hin : last ∈ getLastSavedRuleStateHistory order ruleID history :=
      (mem_getLastSavedRuleStateHistory hsaved).2 hmem
    rw [hlast] at hin
    cases hin
  | cons newest rest =>
    simp only [restartEntries, entriesToAdd, hlast]
    rfl

theorem mem_restartEntries (hsaved : SavedHistory (changedRows ruleID history))
    {r' : HistoryItem V} :
    r' ∈ restartEntries order clock ruleID history items ↔
      ∃ r ∈ restartRows order clock ruleID history items,
        finalRow (savedOverallState order ruleID history)
          (newOverallState (restartRows order clock ruleID history items)) r = r' := by
  rw [restartEntries_eq hsaved, List.mem_map]

theorem map_fingerprint_restartEntries (hsaved : SavedHistory (changedRows ruleID history)) :
    (restartEntries order clock ruleID history items).map HistoryItem.fingerprint =
      (restartRows order clock ruleID history items).map HistoryItem.fingerprint := by
  rw [restartEntries_eq hsaved, List.map_map]
  exact List.map_congr_left fun r _ => finalRow_fingerprint r

/-- The new rows are later than the others. -/
theorem restartEntries_later (hsaved : SavedHistory (changedRows ruleID history))
    (hitems : RuleItems ruleID items) (hlater : IsLater (changedRows ruleID history) items clock) :
    ∀ r ∈ changedRows ruleID history, ∀ r' ∈ restartEntries order clock ruleID history items,
      r.unixMilli < r'.unixMilli := by
  intro r hr r' hr'
  obtain ⟨row, hrow, rfl⟩ := (mem_restartEntries hsaved).1 hr'
  rw [finalRow_unixMilli]
  rcases (mem_restartRows hsaved hitems).1 hrow with ⟨saved, hlast, -, rfl⟩ | ⟨hitem, -⟩
  · exact hlater.clock r hr saved hlast.1
  · exact hlater.items r hr row hitem

/-- The rows of the rule afterwards. -/
theorem changedRows_restart (hsaved : SavedHistory (changedRows ruleID history))
    (hitems : RuleItems ruleID items) :
    changedRows ruleID (history ++ restartEntries order clock ruleID history items) =
      changedRows ruleID history ++ restartEntries order clock ruleID history items := by
  rw [changedRows, List.filter_append, ← changedRows, List.append_cancel_left_eq,
    List.filter_eq_self]
  intro r hr
  obtain ⟨row, hrow, rfl⟩ := (mem_restartEntries hsaved).1 hr
  rw [finalRow_ruleID, finalRow_stateChanged, Bool.and_eq_true, decide_eq_true_eq]
  rcases (mem_restartRows hsaved hitems).1 hrow with ⟨saved, hlast, -, rfl⟩ | ⟨hitem, -⟩
  · have hfilter := (List.mem_filter.1 hlast.1).2
    rw [Bool.and_eq_true, decide_eq_true_eq] at hfilter
    exact ⟨hfilter.1, rfl⟩
  · exact ⟨hitems.ofRule row hitem, hitems.changed row hitem⟩

theorem SavedHistory.last_unique {rows : List (HistoryItem V)} (hsaved : SavedHistory rows)
    {r r' : HistoryItem V} (hr : IsLast HistoryItem.fingerprint HistoryItem.unixMilli rows r)
    (hr' : IsLast HistoryItem.fingerprint HistoryItem.unixMilli rows r')
    (hfp : r.fingerprint = r'.fingerprint) : r = r' :=
  hsaved.timesDiffer r hr.1 r' hr'.1 hfp
    (le_antisymm (hr'.2 r hr.1 hfp) (hr.2 r' hr'.1 hfp.symm))

/-- The last rows afterwards are the new rows and those of the fingerprints that do not change. -/
theorem isLast_restart_iff (hsaved : SavedHistory (changedRows ruleID history))
    (hitems : RuleItems ruleID items) (hlater : IsLater (changedRows ruleID history) items clock)
    {r : HistoryItem V} :
    IsLast HistoryItem.fingerprint HistoryItem.unixMilli
        (changedRows ruleID history ++ restartEntries order clock ruleID history items) r ↔
      r ∈ restartEntries order clock ruleID history items ∨
        (IsLast HistoryItem.fingerprint HistoryItem.unixMilli (changedRows ruleID history) r ∧
          ¬ Changes items r) := by
  have hnodup : ((restartEntries order clock ruleID history items).map
      HistoryItem.fingerprint).Nodup := by
    rw [map_fingerprint_restartEntries hsaved]
    exact nodup_restartRows
  rw [isLast_append_iff (restartEntries_later hsaved hitems hlater) hnodup,
    map_fingerprint_restartEntries hsaved]
  apply or_congr_right
  apply and_congr_right
  intro hlast
  apply not_congr
  rw [List.mem_map]
  constructor
  · rintro ⟨row, hrow, hfp⟩
    rcases (mem_restartRows hsaved hitems).1 hrow with ⟨saved, hlast', hchanges, rfl⟩ | ⟨-, hfree⟩
    · rwa [← hsaved.last_unique hlast' hlast hfp]
    · exact absurd hfp.symm (hfree r hlast.1)
  · intro hchanges
    exact ⟨_, (mem_restartRows hsaved hitems).2 (Or.inl ⟨r, hlast, hchanges, rfl⟩), rfl⟩

/-- A last row afterwards is that of a saved fingerprint, with the state it should have, or that of
an item. -/
theorem restart_last_cases (hsaved : SavedHistory (changedRows ruleID history))
    (hitems : RuleItems ruleID items) (hlater : IsLater (changedRows ruleID history) items clock)
    {r' : HistoryItem V}
    (h : IsLast HistoryItem.fingerprint HistoryItem.unixMilli
      (changedRows ruleID history ++ restartEntries order clock ruleID history items) r') :
    (∃ r, IsLast HistoryItem.fingerprint HistoryItem.unixMilli (changedRows ruleID history) r ∧
        r.fingerprint = r'.fingerprint ∧ r'.state = stateAfter items r) ∨
      ∃ item ∈ items, Unsaved (changedRows ruleID history) item ∧
        item.fingerprint = r'.fingerprint ∧ r'.state = item.state := by
  rcases (isLast_restart_iff hsaved hitems hlater).1 h with hnew | ⟨hlast, hsame⟩
  · obtain ⟨row, hrow, rfl⟩ := (mem_restartEntries hsaved).1 hnew
    rw [finalRow_fingerprint, finalRow_state]
    rcases (mem_restartRows hsaved hitems).1 hrow with ⟨saved, hlast, -, rfl⟩ | ⟨hitem, hfree⟩
    · exact Or.inl ⟨saved, hlast, rfl, rfl⟩
    · exact Or.inr ⟨row, hitem, hfree, rfl, rfl⟩
  · exact Or.inl ⟨r', hlast, rfl, (not_not.1 hsame).symm⟩

/-- The states of the fingerprints are kept, whatever happens to the overall state. -/
theorem statesKept (hsaved : SavedHistory (changedRows ruleID history))
    (hitems : RuleItems ruleID items) (hlater : IsLater (changedRows ruleID history) items clock) :
    StatesKept (changedRows ruleID history) items
      (changedRows ruleID history ++ restartEntries order clock ruleID history items) := by
  have hwithout : ∀ {r r' : HistoryItem V},
      IsLast HistoryItem.fingerprint HistoryItem.unixMilli (changedRows ruleID history) r →
        r.fingerprint = r'.fingerprint →
        IsLast HistoryItem.fingerprint HistoryItem.unixMilli
          (changedRows ruleID history ++ restartEntries order clock ruleID history items) r' →
          (∀ item ∈ items, item.fingerprint ≠ r'.fingerprint) →
            r'.state = if r.state.isFiringOrNoData then .inactive else r.state := by
    intro r r' hlast hfp hr' hnone
    rcases restart_last_cases hsaved hitems hlater hr' with
      ⟨saved, hlast', hfp', hstate⟩ | ⟨item, hitem, -, hfp', -⟩
    · obtain rfl := hsaved.last_unique hlast' hlast (hfp'.trans hfp.symm)
      rw [hstate, stateAfter, hfp, lastItem_eq_none_iff.2 hnone]
    · exact absurd hfp' (hnone item hitem)
  refine ⟨?_, ?_, ?_, ?_⟩
  · intro fp
    constructor
    · rintro ⟨r, hr, rfl⟩
      rcases List.mem_append.1 hr with hold | hnew
      · exact Or.inr ⟨r, hold, rfl⟩
      · obtain ⟨row, hrow, rfl⟩ := (mem_restartEntries hsaved).1 hnew
        rw [finalRow_fingerprint]
        rcases (mem_restartRows hsaved hitems).1 hrow with ⟨saved, hlast, -, rfl⟩ | ⟨hitem, -⟩
        · exact Or.inr ⟨saved, hlast.1, rfl⟩
        · exact Or.inl ⟨row, hitem, rfl⟩
    · rintro (⟨item, hitem, rfl⟩ | ⟨r, hr, rfl⟩)
      · by_cases hfree : Unsaved (changedRows ruleID history) item
        · have hrow : item ∈ restartRows order clock ruleID history items :=
            (mem_restartRows hsaved hitems).2 (Or.inr ⟨hitem, hfree⟩)
          exact ⟨_, List.mem_append_right _ ((mem_restartEntries hsaved).2 ⟨item, hrow, rfl⟩),
            finalRow_fingerprint item⟩
        · simp only [Unsaved, ne_eq, not_forall, not_not, exists_prop] at hfree
          obtain ⟨r, hr, hfp⟩ := hfree
          exact ⟨r, List.mem_append_left _ hr, hfp⟩
      · exact ⟨r, List.mem_append_left _ hr, rfl⟩
  · intro r' hr' item hitem hfp
    rcases restart_last_cases hsaved hitems hlater hr' with
      ⟨r, -, hfp', hstate⟩ | ⟨item', hitem', -, hfp', hstate⟩
    · rw [hstate, stateAfter, hfp', ← hfp, lastItem_of_mem hitems.distinct hitem]
    · rw [hstate, List.inj_on_of_nodup_map hitems.distinct hitem' hitem (hfp'.trans hfp.symm)]
  · intro r' hr' hnone r hlast hfp halerts
    rw [hwithout hlast hfp hr' hnone, if_pos halerts]
  · intro r' hr' hnone r hlast hfp halerts
    rw [hwithout hlast hfp hr' hnone, halerts]
    rfl

variable (order clock) in
theorem newOverallState_restart_iff (hsaved : SavedHistory (changedRows ruleID history))
    (hitems : RuleItems ruleID items) :
    newOverallState (restartRows order clock ruleID history items) = .firing ↔
      NewlyAlerts (changedRows ruleID history) items := by
  rw [newOverallState_eq_firing_iff]
  constructor
  · rintro ⟨r, hr, halerts⟩
    rcases (mem_restartRows hsaved hitems).1 hr with ⟨saved, hlast, hchanges, rfl⟩ | ⟨hitem, hfree⟩
    · exact Or.inl ⟨saved, hlast, hchanges, halerts⟩
    · exact Or.inr ⟨r, hitem, hfree, halerts⟩
  · rintro (⟨r, hlast, hchanges, halerts⟩ | ⟨item, hitem, hfree, halerts⟩)
    · exact ⟨_, (mem_restartRows hsaved hitems).2 (Or.inl ⟨r, hlast, hchanges, rfl⟩), halerts⟩
    · exact ⟨_, (mem_restartRows hsaved hitems).2 (Or.inr ⟨hitem, hfree⟩), halerts⟩

/-- Afterwards some fingerprint alerts exactly when one starts to or stays so. -/
theorem someAlerts_restart_iff (hsaved : SavedHistory (changedRows ruleID history))
    (hitems : RuleItems ruleID items) (hlater : IsLater (changedRows ruleID history) items clock) :
    SomeAlerts (changedRows ruleID history ++ restartEntries order clock ruleID history items) ↔
      NewlyAlerts (changedRows ruleID history) items ∨
        StaysAlerting (changedRows ruleID history) items := by
  rw [← newOverallState_restart_iff order clock hsaved hitems,
    newOverallState_eq_firing_iff]
  constructor
  · rintro ⟨r, hlast, halerts⟩
    rcases (isLast_restart_iff hsaved hitems hlater).1 hlast with hnew | ⟨hlast, hsame⟩
    · obtain ⟨row, hrow, rfl⟩ := (mem_restartEntries hsaved).1 hnew
      rw [finalRow_state] at halerts
      exact Or.inl ⟨row, hrow, halerts⟩
    · exact Or.inr ⟨r, hlast, hsame, halerts⟩
  · rintro (⟨row, hrow, halerts⟩ | ⟨r, hlast, hsame, halerts⟩)
    · have hnew := (mem_restartEntries hsaved).2 ⟨row, hrow, rfl⟩
      refine ⟨_, (isLast_restart_iff hsaved hitems hlater).2 (Or.inl hnew), ?_⟩
      rw [finalRow_state]
      exact halerts
    · exact ⟨r, (isLast_restart_iff hsaved hitems hlater).2 (Or.inr ⟨hlast, hsame⟩), halerts⟩

variable (order) in
/-- What is carried over is what the rows hold before the overall state is known. -/
theorem carries_iff (hsaved : SavedHistory (changedRows ruleID history))
    (hitems : RuleItems ruleID items) {t : Int} {s : AlertState} {c : Bool} :
    Carries (changedRows ruleID history) items clock t s c ↔
      ∃ r ∈ restartRows order clock ruleID history items,
        r.unixMilli = t ∧ r.overallState = s ∧ r.overallStateChanged = c := by
  constructor
  · rintro (⟨hlast, hchanges⟩ | ⟨hitem, hfree⟩)
    · exact ⟨_, (mem_restartRows hsaved hitems).2 (Or.inl ⟨_, hlast, hchanges, rfl⟩), rfl, rfl, rfl⟩
    · exact ⟨_, (mem_restartRows hsaved hitems).2 (Or.inr ⟨hitem, hfree⟩), rfl, rfl, rfl⟩
  · rintro ⟨r, hr, rfl, rfl, rfl⟩
    rcases (mem_restartRows hsaved hitems).1 hr with ⟨saved, hlast, hchanges, rfl⟩ | ⟨hitem, hfree⟩
    · exact .saved hlast hchanges
    · exact .item hitem hfree

/-- The old overall state tells whether some fingerprint alerted. -/
theorem savedOverallState_eq_firing_iff (hsaved : SavedHistory (changedRows ruleID history)) :
    savedOverallState order ruleID history = .firing ↔ SomeAlerts (changedRows ruleID history) := by
  have horder := order.newestFirst (changedRows ruleID history)
  rw [savedOverallState, getLastSavedRuleStateHistory, head?_limitOneBy]
  cases hhead : (order.sort (changedRows ruleID history)).head? with
  | none =>
    rw [List.head?_eq_none_iff] at hhead
    rw [hhead] at horder
    exact absurd horder.perm.nil_eq.symm hsaved.notEmpty
  | some newest => exact hsaved.overall newest (horder.isNewest hhead)

/-- A newest row afterwards, where rows were written. -/
theorem isNewest_restart_iff (hsaved : SavedHistory (changedRows ruleID history))
    (hitems : RuleItems ruleID items) (hlater : IsLater (changedRows ruleID history) items clock)
    (hrows : restartRows order clock ruleID history items ≠ []) {w : HistoryItem V} :
    IsNewest HistoryItem.unixMilli
        (changedRows ruleID history ++ restartEntries order clock ruleID history items) w ↔
      ∃ r, IsNewest HistoryItem.unixMilli (restartRows order clock ruleID history items) r ∧
        finalRow (savedOverallState order ruleID history)
          (newOverallState (restartRows order clock ruleID history items)) r = w := by
  have hentries : restartEntries order clock ruleID history items ≠ [] := by
    rw [restartEntries_eq hsaved]
    exact fun h => hrows (List.map_eq_nil_iff.1 h)
  rw [isNewest_append_iff (restartEntries_later hsaved hitems hlater) hentries,
    restartEntries_eq hsaved, isNewest_map_finalRow_iff]

/-- Where the overall state changes, every new row has the new one and its flag. -/
theorem overallKept_iff_of_changes (hsaved : SavedHistory (changedRows ruleID history))
    (hitems : RuleItems ruleID items) (hlater : IsLater (changedRows ruleID history) items clock)
    (hrows : restartRows order clock ruleID history items ≠ [])
    (hchanges : savedOverallState order ruleID history ≠
      newOverallState (restartRows order clock ruleID history items)) :
    OverallKept (savedOverallState order ruleID history)
        (restartEntries order clock ruleID history items)
        (changedRows ruleID history ++ restartEntries order clock ruleID history items) ↔
      (StaysAlerting (changedRows ruleID history) items →
        NewlyAlerts (changedRows ruleID history) items) := by
  have hfinal : ∀ r : HistoryItem V,
      finalRow (savedOverallState order ruleID history)
          (newOverallState (restartRows order clock ruleID history items)) r =
        { r with
          overallState := newOverallState (restartRows order clock ruleID history items)
          overallStateChanged := true } := fun r => if_pos hchanges
  constructor
  · intro h hstays
    obtain ⟨r, hr⟩ := exists_isNewest HistoryItem.unixMilli hrows
    have hnewest := (isNewest_restart_iff hsaved hitems hlater hrows).2 ⟨r, hr, rfl⟩
    have hfiring := (h.overall _ hnewest).2
      ((someAlerts_restart_iff hsaved hitems hlater).2 (Or.inr hstays))
    rw [hfinal] at hfiring
    exact (newOverallState_restart_iff order clock hsaved hitems).1 hfiring
  · intro h
    refine ⟨?_, ?_⟩
    · intro w hw
      obtain ⟨r, -, rfl⟩ := (isNewest_restart_iff hsaved hitems hlater hrows).1 hw
      rw [hfinal, someAlerts_restart_iff hsaved hitems hlater, or_iff_left_of_imp h]
      exact newOverallState_restart_iff order clock hsaved hitems
    · intro w hw r' hr'
      obtain ⟨r, -, rfl⟩ := (isNewest_restart_iff hsaved hitems hlater hrows).1 hw
      obtain ⟨row, -, rfl⟩ := (mem_restartEntries hsaved).1 hr'
      rw [hfinal, hfinal]
      exact iff_of_true rfl hchanges.symm

/-- Where it stays, the new rows keep what they were copied with. -/
theorem overallKept_iff_of_same (hsaved : SavedHistory (changedRows ruleID history))
    (hitems : RuleItems ruleID items) (hlater : IsLater (changedRows ruleID history) items clock)
    (hrows : restartRows order clock ruleID history items ≠ [])
    (hsame : savedOverallState order ruleID history =
      newOverallState (restartRows order clock ruleID history items)) :
    OverallKept (savedOverallState order ruleID history)
        (restartEntries order clock ruleID history items)
        (changedRows ruleID history ++ restartEntries order clock ruleID history items) ↔
      CarriesRight (changedRows ruleID history) items clock
        (savedOverallState order ruleID history) := by
  have hfinal : ∀ r : HistoryItem V,
      finalRow (savedOverallState order ruleID history)
        (newOverallState (restartRows order clock ruleID history items)) r = r :=
    fun r => if_neg (not_not.2 hsame)
  -- With the old overall state the history told the truth, and the truth is the same.
  have htruth : SomeAlerts
      (changedRows ruleID history ++ restartEntries order clock ruleID history items) ↔
        savedOverallState order ruleID history = .firing := by
    rw [someAlerts_restart_iff hsaved hitems hlater,
      ← newOverallState_restart_iff order clock hsaved hitems, ← hsame]
    apply or_iff_left_of_imp
    rintro ⟨r, hlast, -, halerts⟩
    exact (savedOverallState_eq_firing_iff hsaved).2 ⟨r, hlast, halerts⟩
  have hnewest : ∀ w, IsNewest HistoryItem.unixMilli
        (changedRows ruleID history ++ restartEntries order clock ruleID history items) w ↔
      IsNewest HistoryItem.unixMilli (restartRows order clock ruleID history items) w := by
    intro w
    simp only [isNewest_restart_iff hsaved hitems hlater hrows, hfinal, exists_eq_right]
  have hentries : ∀ r, r ∈ restartEntries order clock ruleID history items ↔
      r ∈ restartRows order clock ruleID history items := by
    intro r
    simp only [mem_restartEntries hsaved, hfinal, exists_eq_right]
  constructor
  · rintro ⟨hoverall, hchanged⟩ t s c hcarries hlast
    obtain ⟨r, hr, rfl, rfl, rfl⟩ := (carries_iff order hsaved hitems).1 hcarries
    have hr' : IsNewest HistoryItem.unixMilli (restartRows order clock ruleID history items) r :=
      ⟨hr, fun r' hr' => hlast _ _ _ ((carries_iff order hsaved hitems).2 ⟨r', hr', rfl, rfl, rfl⟩)⟩
    refine ⟨(hoverall r ((hnewest r).2 hr')).trans htruth, ?_⟩
    intro t' s' c' hcarries'
    obtain ⟨r', hr'', rfl, rfl, rfl⟩ := (carries_iff order hsaved hitems).1 hcarries'
    exact hchanged r ((hnewest r).2 hr') r' ((hentries r').2 hr'')
  · intro h
    have hright : ∀ w, IsNewest HistoryItem.unixMilli
        (restartRows order clock ruleID history items) w →
          (w.overallState = .firing ↔ savedOverallState order ruleID history = .firing) ∧
            ∀ t s c, Carries (changedRows ruleID history) items clock t s c →
              (c = true ↔ w.overallState ≠ savedOverallState order ruleID history) := by
      intro w hw
      refine h _ _ _ ((carries_iff order hsaved hitems).2 ⟨w, hw.1, rfl, rfl, rfl⟩) ?_
      intro t s c hcarries
      obtain ⟨r, hr, rfl, rfl, rfl⟩ := (carries_iff order hsaved hitems).1 hcarries
      exact hw.2 r hr
    refine ⟨?_, ?_⟩
    · intro w hw
      exact (hright w ((hnewest w).1 hw)).1.trans htruth.symm
    · intro w hw r hr
      exact (hright w ((hnewest w).1 hw)).2 _ _ _
        ((carries_iff order hsaved hitems).2 ⟨r, (hentries r).1 hr, rfl, rfl, rfl⟩)

/-- The overall state is kept exactly when the restart fits. -/
theorem overallKept_iff (hsaved : SavedHistory (changedRows ruleID history))
    (hitems : RuleItems ruleID items) (hlater : IsLater (changedRows ruleID history) items clock) :
    OverallKept (savedOverallState order ruleID history)
        (restartEntries order clock ruleID history items)
        (changedRows ruleID history ++ restartEntries order clock ruleID history items) ↔
      RestartFits (changedRows ruleID history) items clock
        (savedOverallState order ruleID history) := by
  have hnew := newOverallState_restart_iff order clock hsaved hitems
  by_cases hrows : restartRows order clock ruleID history items = []
  · -- Nothing is written, and everything stays.
    have hentries : restartEntries order clock ruleID history items = [] := by
      rw [restartEntries_eq hsaved, hrows, List.map_nil]
    have hnone : ∀ t s c, ¬ Carries (changedRows ruleID history) items clock t s c := by
      intro t s c hcarries
      obtain ⟨r, hr, -⟩ := (carries_iff order hsaved hitems).1 hcarries
      rw [hrows] at hr
      cases hr
    rw [hentries, List.append_nil]
    exact iff_of_true ⟨hsaved.overall, fun _ _ r hr => nomatch hr⟩ (.nothing hnone)
  have hcarries : ¬ ∀ t s c, ¬ Carries (changedRows ruleID history) items clock t s c := by
    obtain ⟨r, hr⟩ := List.exists_mem_of_ne_nil _ hrows
    exact fun h => h _ _ _ ((carries_iff order hsaved hitems).2 ⟨r, hr, rfl, rfl, rfl⟩)
  by_cases hfires : NewlyAlerts (changedRows ruleID history) items
  · have hstate := hnew.2 hfires
    by_cases hold : savedOverallState order ruleID history = .firing
    · rw [overallKept_iff_of_same hsaved hitems hlater hrows (hold.trans hstate.symm)]
      refine ⟨.staysFiring hfires hold, ?_⟩
      rintro (hnone | ⟨-, hne⟩ | ⟨hnot, -, -⟩ | ⟨-, -, h⟩ | ⟨hnot, -, -⟩)
      · exact absurd hnone hcarries
      · exact absurd hold hne
      · exact absurd hfires hnot
      · exact h
      · exact absurd hfires hnot
    · rw [overallKept_iff_of_changes hsaved hitems hlater hrows (hstate ▸ hold)]
      exact iff_of_true (fun _ => hfires) (.fires hfires hold)
  · have hstate := newOverallState_eq_inactive_iff.2 (mt hnew.1 hfires)
    by_cases hold : savedOverallState order ruleID history = .inactive
    · rw [overallKept_iff_of_same hsaved hitems hlater hrows (hold.trans hstate.symm)]
      refine ⟨.staysInactive hfires hold, ?_⟩
      rintro (hnone | ⟨hfires', -⟩ | ⟨-, hne, -⟩ | ⟨hfires', -, -⟩ | ⟨-, -, h⟩)
      · exact absurd hnone hcarries
      · exact absurd hfires' hfires
      · exact absurd hold hne
      · exact absurd hfires' hfires
      · exact h
    · rw [overallKept_iff_of_changes hsaved hitems hlater hrows (hstate ▸ hold)]
      constructor
      · exact fun h => .ends hfires hold (mt h hfires)
      · rintro (hnone | ⟨hfires', -⟩ | ⟨-, -, hends⟩ | ⟨hfires', -, -⟩ | ⟨-, heq, -⟩) hstays
        · exact absurd hnone hcarries
        · exact hfires'
        · exact absurd hstays hends
        · exact hfires'
        · exact absurd heq hold

end Restart

/-! ## The first record after a restart -/

/-- The history stays true: the last rows have the states they should have, and the overall state
is kept. -/
structure StaysTrue (order : RowOrder V) (ruleID : String)
    (history items after : List (HistoryItem V)) : Prop where
  states : StatesKept (changedRows ruleID history) items (changedRows ruleID after)
  overall : OverallKept (savedOverallState order ruleID history) (after.drop history.length)
    (changedRows ruleID after)

/-- After the first record of a restart the history is true exactly when the restart fits; the
states of the fingerprints always come out right. -/
theorem restart_stays_true_iff (order : RowOrder V) (clock : HistoryItem V → Int) (ruleID : String)
    (history items : List (HistoryItem V)) (hsaved : SavedHistory (changedRows ruleID history))
    (hitems : RuleItems ruleID items)
    (hlater : IsLater (changedRows ruleID history) items clock) :
    StaysTrue order ruleID history items
        (Recorder.record order clock ruleID true ⟨history, false⟩ items).history ↔
      RestartFits (changedRows ruleID history) items clock
        (savedOverallState order ruleID history) := by
  have hafter : (Recorder.record order clock ruleID true ⟨history, false⟩ items).history =
      history ++ restartEntries order clock ruleID history items := rfl
  rw [hafter, ← overallKept_iff hsaved hitems hlater]
  constructor
  · rintro ⟨-, hoverall⟩
    rwa [List.drop_left, changedRows_restart hsaved hitems] at hoverall
  · intro hoverall
    refine ⟨?_, ?_⟩
    · rw [changedRows_restart hsaved hitems]
      exact statesKept hsaved hitems hlater
    · rwa [List.drop_left, changedRows_restart hsaved hitems]

/-! ## Two hosts across a restart -/

/-- Sort by time, and by position where times are the same. -/
def byTime : RowOrder ℚ where
  sort rows := rows.insertionSort fun a b => b.unixMilli ≤ a.unixMilli
  newestFirst rows := by
    refine ⟨List.perm_insertionSort _ _, ?_⟩
    have : Std.Total fun a b : HistoryItem ℚ => b.unixMilli ≤ a.unixMilli :=
      ⟨fun a b => le_total b.unixMilli a.unixMilli⟩
    have : IsTrans (HistoryItem ℚ) fun a b => b.unixMilli ≤ a.unixMilli :=
      ⟨fun _ _ _ hab hbc => le_trans hbc hab⟩
    exact List.pairwise_insertionSort _ _

/-- A row of a host, while the rule is firing. -/
def hostRow (fp : Nat) (ts : Int) (state overall : AlertState) : HistoryItem ℚ :=
  ⟨"r1", "latency", state, true, ts, [], fp, 150, overall, true⟩

/-- Two hosts fire. -/
def twoFiring : List (HistoryItem ℚ) :=
  [hostRow 1 1000 .firing .firing, hostRow 2 1000 .firing .firing]

/-- After the restart the first of them still does. -/
def firstFires : List (HistoryItem ℚ) := [hostRow 1 2000 .firing .firing]

theorem firstFires_ofRule : RuleItems "r1" firstFires := by
  refine ⟨List.nodup_singleton _, ?_, ?_⟩
  · intro item hitem
    rw [List.mem_singleton.1 hitem]
    rfl
  · intro item hitem
    rw [List.mem_singleton.1 hitem]
    rfl

theorem firstFires_recorded :
    (Recorder.record byTime (fun _ => 2001) "r1" true ⟨twoFiring, false⟩ firstFires).history =
      twoFiring ++ [hostRow 2 2001 .inactive .inactive] :=
  rfl

/-- The rows of two hosts have two fingerprints. -/
theorem eq_of_fingerprint_hosts {state : AlertState} :
    ∀ r ∈ [hostRow 1 1000 state state, hostRow 2 1000 state state],
      ∀ r' ∈ [hostRow 1 1000 state state, hostRow 2 1000 state state],
        r.fingerprint = r'.fingerprint → r.unixMilli = r'.unixMilli → r = r' := by
  intro r hr r' hr' hfp _
  rcases List.mem_pair.1 hr with rfl | rfl <;> rcases List.mem_pair.1 hr' with rfl | rfl
  · rfl
  · cases hfp
  · cases hfp
  · rfl

theorem isLater_hosts (state : AlertState) :
    IsLater [hostRow 1 1000 state state, hostRow 2 1000 state state] firstFires fun _ => 2001 := by
  refine ⟨?_, ?_⟩
  · intro r hr item hitem
    rw [List.mem_singleton.1 hitem]
    rcases List.mem_pair.1 hr with rfl | rfl <;> exact (by decide : (1000 : Int) < 2000)
  · intro r hr _ _
    rcases List.mem_pair.1 hr with rfl | rfl <;> exact (by decide : (1000 : Int) < 2001)

/-- One host recovers during the restart and the other goes on firing, and the newest row says that
the rule is not firing. -/
theorem firing_rule_becomes_inactive :
    SavedHistory (changedRows "r1" twoFiring) ∧ RuleItems "r1" firstFires ∧
      IsLater (changedRows "r1" twoFiring) firstFires (fun _ => 2001) ∧
      ¬ StaysTrue byTime "r1" twoFiring firstFires
        (Recorder.record byTime (fun _ => 2001) "r1" true
          ⟨twoFiring, false⟩ firstFires).history := by
  have hrows : changedRows "r1" twoFiring = twoFiring := rfl
  have hafter : changedRows "r1" (twoFiring ++ [hostRow 2 2001 .inactive .inactive]) =
      twoFiring ++ [hostRow 2 2001 .inactive .inactive] := rfl
  refine ⟨?_, ?_, ?_, ?_⟩
  · rw [hrows]
    refine ⟨List.cons_ne_nil _ _, eq_of_fingerprint_hosts, ?_⟩
    · intro newest hnewest
      refine iff_of_true ?_ ⟨hostRow 1 1000 .firing .firing, ⟨List.mem_cons_self, ?_⟩, rfl⟩
      · rcases List.mem_pair.1 hnewest.1 with rfl | rfl <;> rfl
      · intro r' hr' _
        rcases List.mem_pair.1 hr' with rfl | rfl <;> exact le_refl _
  · exact firstFires_ofRule
  · rw [hrows]
    exact isLater_hosts .firing
  · rintro ⟨-, hoverall, -⟩
    rw [firstFires_recorded, hafter] at hoverall
    -- The newest row is Inactive, and the first host fires.
    have hnewest : IsNewest HistoryItem.unixMilli
        (twoFiring ++ [hostRow 2 2001 .inactive .inactive])
          (hostRow 2 2001 .inactive .inactive) := by
      refine ⟨List.mem_append_right _ List.mem_cons_self, ?_⟩
      intro r hr
      rcases List.mem_append.1 hr with hr | hr
      · rcases List.mem_pair.1 hr with rfl | rfl <;> decide
      · rw [List.mem_singleton.1 hr]
    have hfires : SomeAlerts (twoFiring ++ [hostRow 2 2001 .inactive .inactive]) := by
      refine ⟨hostRow 1 1000 .firing .firing, ⟨List.mem_cons_self, ?_⟩, rfl⟩
      intro r hr hfp
      rcases List.mem_append.1 hr with hr | hr
      · rcases List.mem_pair.1 hr with rfl | rfl <;> exact le_refl _
      · rw [List.mem_singleton.1 hr] at hfp
        cases hfp
    exact absurd ((hoverall _ hnewest).2 hfires) nofun

/-- Two hosts that have recovered. -/
def twoRecovered : List (HistoryItem ℚ) :=
  [hostRow 1 1000 .inactive .inactive, hostRow 2 1000 .inactive .inactive]

/-- The first of two hosts fires again after the restart, and the rule with it. -/
theorem restart_stays_true_fires :
    StaysTrue byTime "r1" twoRecovered firstFires
      (Recorder.record byTime (fun _ => 2001) "r1" true
        ⟨twoRecovered, false⟩ firstFires).history := by
  have hrows : changedRows "r1" twoRecovered = twoRecovered := rfl
  have hlast : IsLast HistoryItem.fingerprint HistoryItem.unixMilli twoRecovered
      (hostRow 1 1000 .inactive .inactive) := by
    refine ⟨List.mem_cons_self, ?_⟩
    intro r hr _
    rcases List.mem_pair.1 hr with rfl | rfl <;> exact le_refl _
  refine (restart_stays_true_iff byTime (fun _ => 2001) "r1" _ _ ?_ firstFires_ofRule ?_).2
    (.fires ?_ ?_)
  · rw [hrows]
    refine ⟨List.cons_ne_nil _ _, eq_of_fingerprint_hosts, ?_⟩
    · intro newest hnewest
      refine iff_of_false ?_ ?_
      · rcases List.mem_pair.1 hnewest.1 with rfl | rfl <;> exact nofun
      · rintro ⟨r, hr, halerts⟩
        rcases List.mem_pair.1 hr.1 with rfl | rfl <;> cases halerts
  · rw [hrows]
    exact isLater_hosts .inactive
  · rw [hrows]
    exact .inl ⟨_, hlast, nofun, rfl⟩
  · decide +kernel

end Signoz.Rules
