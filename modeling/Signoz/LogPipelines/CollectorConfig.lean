import Signoz.Lib.ListScans
import Signoz.LogPipelines.PipelineOperator

/-!
# The processors of the logs pipeline

`buildCollectorPipelineProcessorsList` of `collector_config.go` merges the processors of the
generated pipelines into the list that the collector runs. The walk has a cursor into the current
list; a processor of ours that the cursor passes is left out, and comes back in its turn as if it
were new (`Placed`).
-/

namespace Signoz.LogPipelines

open Lib.ListScans

/-! ## The list -/

/-- `hasSignozPipelineProcessorPrefix`. -/
def hasSignozPipelineProcessorPrefix (procName : String) : Bool :=
  hasPrefix procName "signozlogspipeline/pipeline_" || hasPrefix procName "logstransform/pipeline_"

/-- The current processors without those of ours that are not desired any more. -/
def wantedProcessors (currentCollectorProcessors signozPipelineProcessorNames : List String) :
    List String :=
  currentCollectorProcessors.filter fun procName =>
    signozPipelineProcessorNames.contains procName || !hasSignozPipelineProcessorPrefix procName

/-- `specVsExistingMap` and `existingVsSpec`. -/
structure PositionMaps where
  specVsExistingMap : Nat → Option Nat
  existingVsSpec : Nat → Option Nat

def matchPosition (existing : String → Option Nat) (maps : PositionMaps) (m : String) (i : Nat) :
    PositionMaps :=
  match existing m with
  | some loc =>
    { specVsExistingMap := Function.update maps.specVsExistingMap i (some loc)
      existingVsSpec := Function.update maps.existingVsSpec loc (some i) }
  | none => maps

def matchPositions (existing : String → Option Nat) (signozPipelineProcessorNames : List String) :
    PositionMaps :=
  signozPipelineProcessorNames.zipIdx.foldl (fun maps p => matchPosition existing maps p.1 p.2)
    ⟨fun _ => none, fun _ => none⟩

/-- The variables of the walk. -/
structure Walk where
  specVsExistingMap : Nat → Option Nat
  lastMatched : Nat
  newPipeline : List String

section Walking

variable (pipeline : List String) (existingVsSpec : Nat → Option Nat)

/-- The body of the inner loop. A position that the map does not have reads as `0`. -/
def Walk.pass (walk : Walk) (j : Nat) : Walk :=
  if hasSignozPipelineProcessorPrefix (pipeline.getD j "") then
    { walk with
      specVsExistingMap :=
        Function.update walk.specVsExistingMap ((existingVsSpec j).getD 0) none }
  else { walk with newPipeline := walk.newPipeline ++ [pipeline.getD j ""] }

/-- The body of the outer loop. -/
def Walk.place (walk : Walk) (m : String) (i : Nat) : Walk :=
  match walk.specVsExistingMap i with
  | some loc =>
    let passed := (List.range' walk.lastMatched (loc - walk.lastMatched)).foldl
      (Walk.pass pipeline existingVsSpec) walk
    { passed with
      lastMatched := loc + 1
      newPipeline := passed.newPipeline ++ [pipeline.getD loc ""] }
  | none => { walk with newPipeline := walk.newPipeline ++ [m] }

end Walking

/-- `checkDuplicateString`. -/
def checkDuplicateString (pipeline : List String) : Bool := repeats [] pipeline

/-- The walk over the desired names. -/
def walkNames (pipeline signozPipelineProcessorNames : List String) : Walk :=
  -- the map `existing` has the last position of each name
  let maps := matchPositions (lastPosition pipeline) signozPipelineProcessorNames
  signozPipelineProcessorNames.zipIdx.foldl
    (fun walk p => walk.place pipeline maps.existingVsSpec p.1 p.2)
    ⟨maps.specVsExistingMap, 0, []⟩

/-- `buildCollectorPipelineProcessorsList`: the list, and an error. -/
def buildCollectorPipelineProcessorsList
    (currentCollectorProcessors signozPipelineProcessorNames : List String) :
    List String × Option String :=
  let pipeline := wantedProcessors currentCollectorProcessors signozPipelineProcessorNames
  let walk := walkNames pipeline signozPipelineProcessorNames
  let newPipeline := walk.newPipeline ++ pipeline.drop walk.lastMatched
  if checkDuplicateString newPipeline then
    (pipeline, some ("the effective config has an unexpected processor sequence: [" ++
      " ".intercalate pipeline ++ "]"))
  else (newPipeline, none)

/-! ## Positions -/

/-- The position at which a desired name is matched. -/
def matched (pipeline names : List String) (i : Nat) : Option Nat :=
  names[i]?.bind (lastPosition pipeline)

variable {pipeline names : List String}

theorem matched_some {i loc : Nat} (h : matched pipeline names i = some loc) :
    ∃ m, names[i]? = some m ∧ lastPosition pipeline m = some loc :=
  Option.bind_eq_some_iff.mp h

/-- Different names are matched at different positions. -/
theorem matched_inj (hnodup : names.Nodup) {i i' loc : Nat}
    (h : matched pipeline names i = some loc) (h' : matched pipeline names i' = some loc) :
    i = i' := by
  obtain ⟨m, hm, hloc⟩ := matched_some h
  obtain ⟨m', hm', hloc'⟩ := matched_some h'
  obtain rfl := lastPosition_inj hloc hloc'
  exact (List.getElem?_inj (List.getElem?_eq_some_iff.mp hm).1 hnodup).mp (hm.trans hm'.symm)

theorem matched_append (pipeline names : List String) (m : String) (i : Nat) :
    matched pipeline (names ++ [m]) i =
      if i = names.length then lastPosition pipeline m else matched pipeline names i := by
  unfold matched
  split_ifs with hi
  · rw [hi, List.getElem?_concat_length, Option.bind_some]
  · by_cases hlt : i < names.length
    · rw [List.getElem?_append_left hlt]
    · have hlen : (names ++ [m]).length ≤ i := by
        rw [List.length_append, List.length_singleton]
        omega
      rw [List.getElem?_eq_none hlen, List.getElem?_eq_none (by omega)]

theorem matched_length (pipeline names : List String) :
    matched pipeline names names.length = none := by
  rw [matched, List.getElem?_eq_none (Nat.le_refl _), Option.bind_none]

theorem matchPositions_append (existing : String → Option Nat) (names : List String) (m : String) :
    matchPositions existing (names ++ [m]) =
      matchPosition existing (matchPositions existing names) m names.length := by
  rw [matchPositions, List.zipIdx_append, List.foldl_append]
  simp [matchPositions]

theorem specVsExistingMap_eq (pipeline names : List String) (i : Nat) :
    (matchPositions (lastPosition pipeline) names).specVsExistingMap i =
      matched pipeline names i := by
  induction names using List.reverseRecOn with
  | nil => rfl
  | append_singleton names m ih =>
    rw [matchPositions_append, matchPosition, matched_append]
    split
    · rename_i loc hloc
      rw [hloc, ← ih]
      exact Function.update_apply _ _ _ _
    · rename_i hnone
      rw [hnone, ih]
      split_ifs with hi
      · rw [hi, matched_length]
      · rfl

theorem existingVsSpec_iff (hnodup : names.Nodup) {i j : Nat} :
    (matchPositions (lastPosition pipeline) names).existingVsSpec j = some i ↔
      matched pipeline names i = some j := by
  induction names using List.reverseRecOn generalizing i with
  | nil =>
    constructor
    · intro h
      cases h
    · intro h
      cases h
  | append_singleton names m ih =>
    have hnames : names.Nodup := (List.nodup_append.mp hnodup).1
    rw [matchPositions_append, matchPosition]
    split
    · rename_i loc hloc
      change Function.update (matchPositions (lastPosition pipeline) names).existingVsSpec
        loc (some names.length) j = some i ↔ _
      by_cases hj : j = loc
      · -- the name that was added is matched here, and no other one
        subst hj
        rw [Function.update_self, Option.some.injEq]
        have hlast : matched pipeline (names ++ [m]) names.length = some j := by
          rw [matched_append, if_pos rfl, hloc]
        constructor
        · rintro rfl
          exact hlast
        · exact fun h => matched_inj hnodup hlast h
      · rw [Function.update_of_ne hj, ih hnames, matched_append]
        split_ifs with hi
        · rw [hi, matched_length, hloc, Option.some.injEq]
          exact iff_of_false (by simp) (Ne.symm hj)
        · rfl
    · rename_i hnone
      rw [ih hnames, matched_append]
      split_ifs with hi
      · rw [hi, matched_length, hnone]
      · rfl

/-! ## The inner loop -/

section Pass

variable {pipeline : List String} {existingVsSpec : Nat → Option Nat}

/-- What is not ours is copied. -/
theorem foldl_pass_newPipeline (js : List Nat) (walk : Walk) :
    (js.foldl (Walk.pass pipeline existingVsSpec) walk).newPipeline =
      walk.newPipeline ++
        (js.map fun j => pipeline.getD j "").filter (!hasSignozPipelineProcessorPrefix ·) := by
  induction js generalizing walk with
  | nil => exact (List.append_nil _).symm
  | cons j js ih =>
    rw [List.foldl_cons, ih, Walk.pass, List.map_cons]
    split
    · rename_i hours
      rw [List.filter_cons_of_neg (by rw [hours]; exact Bool.false_ne_true)]
    · rename_i hforeign
      rw [List.filter_cons_of_pos (Bool.not_eq_true' _ ▸ Bool.eq_false_iff.mpr hforeign)]
      exact List.append_assoc _ _ _

/-- The inner loop takes the name `i` out of `specVsExistingMap` at the position `j`. -/
def Deletes (pipeline : List String) (existingVsSpec : Nat → Option Nat) (j i : Nat) : Prop :=
  hasSignozPipelineProcessorPrefix (pipeline.getD j "") = true ∧ (existingVsSpec j).getD 0 = i

variable {walk : Walk}

theorem pass_of_deletes {i j : Nat} (h : Deletes pipeline existingVsSpec j i) :
    (walk.pass pipeline existingVsSpec j).specVsExistingMap i = none := by
  rw [Walk.pass, if_pos h.1]
  exact (congrArg (Function.update walk.specVsExistingMap · none i) h.2).trans
    (Function.update_self _ _ _)

theorem pass_of_not_deletes {i j : Nat} (h : ¬Deletes pipeline existingVsSpec j i) :
    (walk.pass pipeline existingVsSpec j).specVsExistingMap i = walk.specVsExistingMap i := by
  rw [Walk.pass]
  split
  · rename_i hours
    exact Function.update_of_ne (fun hi => h ⟨hours, hi.symm⟩) _ _
  · rfl

/-- What is ours is not matched any more. -/
theorem foldl_pass_of_deletes {js : List Nat} {i : Nat}
    (h : walk.specVsExistingMap i = none ∨ ∃ j ∈ js, Deletes pipeline existingVsSpec j i) :
    (js.foldl (Walk.pass pipeline existingVsSpec) walk).specVsExistingMap i = none := by
  induction js generalizing walk with
  | nil => exact h.resolve_right fun ⟨_, hj, _⟩ => List.not_mem_nil hj
  | cons j js ih =>
    apply ih
    by_cases hdel : Deletes pipeline existingVsSpec j i
    · exact .inl (pass_of_deletes hdel)
    · obtain hnone | ⟨j', hj', hdel'⟩ := h
      · exact .inl ((pass_of_not_deletes hdel).trans hnone)
      · rcases List.mem_cons.mp hj' with rfl | hj'
        · exact absurd hdel' hdel
        · exact .inr ⟨j', hj', hdel'⟩

theorem foldl_pass_of_not_deletes {js : List Nat} {i : Nat}
    (h : ∀ j ∈ js, ¬Deletes pipeline existingVsSpec j i) :
    (js.foldl (Walk.pass pipeline existingVsSpec) walk).specVsExistingMap i =
      walk.specVsExistingMap i := by
  induction js generalizing walk with
  | nil => rfl
  | cons j js ih =>
    obtain ⟨hj, hjs⟩ := List.forall_mem_cons.mp h
    rw [List.foldl_cons, ih hjs, pass_of_not_deletes hj]

/-- The positions up to another one, as a part of the list. -/
theorem map_getD_range' (l : List String) (k : Nat) : ∀ n, k + n ≤ l.length →
    (List.range' k n).map (fun j => l.getD j "") = (l.drop k).take n := by
  intro n
  induction n generalizing k with
  | zero => exact fun _ => rfl
  | succ n ih =>
    intro h
    have hlt : k < l.length := by omega
    rw [List.range'_succ, List.map_cons, ih (k + 1) (by omega), List.drop_eq_getElem_cons hlt,
      List.take_succ_cons, List.getD_eq_getElem?_getD, List.getElem?_eq_getElem hlt,
      Option.getD_some]

end Pass

/-! ## The walk -/

/-- After the first `i` desired names: what the cursor has passed is in the new list if it is not
ours, the names are in it in their order, and a name to come is matched when it is ahead. -/
structure Placed (pipeline names : List String) (i : Nat) (walk : Walk) : Prop where
  le : walk.lastMatched ≤ pipeline.length
  foreign : walk.newPipeline.filter (!hasSignozPipelineProcessorPrefix ·) =
    (pipeline.take walk.lastMatched).filter (!hasSignozPipelineProcessorPrefix ·)
  ours : walk.newPipeline.filter hasSignozPipelineProcessorPrefix = names.take i
  ahead : ∀ i', i ≤ i' → walk.specVsExistingMap i' =
    (matched pipeline names i').filter (walk.lastMatched ≤ ·)
  behind : ∀ i' < i, ∀ loc, matched pipeline names i' = some loc → loc < walk.lastMatched

theorem take_split {l : List String} {k loc : Nat} {m : String} (hle : k ≤ loc)
    (hm : l[loc]? = some m) :
    l.take (loc + 1) = (l.take k ++ (l.drop k).take (loc - k)) ++ [m] := by
  have hloc : l.take loc = l.take k ++ (l.drop k).take (loc - k) := by
    rw [← List.take_add, Nat.add_sub_cancel' hle]
  rw [List.take_add_one, hm, Option.toList_some, hloc]

/-- What is passed over is not ours in the new list. -/
theorem filter_ours_of_foreign (l : List String) :
    (l.filter (!hasSignozPipelineProcessorPrefix ·)).filter hasSignozPipelineProcessorPrefix =
      [] := by
  rw [List.filter_eq_nil_iff]
  intro m hm hours
  have hforeign := (List.mem_filter.mp hm).2
  rw [hours] at hforeign
  cases hforeign

section Walking

variable {pipeline names : List String}

/-- What the walk does at a name that is matched ahead. -/
theorem place_matched {walk : Walk} {m : String} {i loc : Nat} (existingVsSpec : Nat → Option Nat)
    (hspec : walk.specVsExistingMap i = some loc) (hle : walk.lastMatched ≤ loc)
    (hm : pipeline[loc]? = some m) :
    walk.place pipeline existingVsSpec m i =
      { specVsExistingMap :=
          ((List.range' walk.lastMatched (loc - walk.lastMatched)).foldl
            (Walk.pass pipeline existingVsSpec) walk).specVsExistingMap
        lastMatched := loc + 1
        newPipeline := (walk.newPipeline ++
          ((pipeline.drop walk.lastMatched).take (loc - walk.lastMatched)).filter
            (!hasSignozPipelineProcessorPrefix ·)) ++ [m] } := by
  have hlt := (List.getElem?_eq_some_iff.mp hm).1
  rw [Walk.place, hspec]
  dsimp only
  rw [foldl_pass_newPipeline, map_getD_range' _ _ _ (by omega), List.getD_eq_getElem?_getD, hm,
    Option.getD_some]

/-- The names to come that stay matched are those ahead of the cursor. -/
theorem ahead_pass (hnodup : names.Nodup)
    (hours : ∀ m ∈ names, hasSignozPipelineProcessorPrefix m = true) {walk : Walk} {i i' loc : Nat}
    (hlt : i < i') (h : Placed pipeline names i walk) (hle : walk.lastMatched ≤ loc)
    (hloc : matched pipeline names i = some loc) :
    ((List.range' walk.lastMatched (loc - walk.lastMatched)).foldl (Walk.pass pipeline
        (matchPositions (lastPosition pipeline) names).existingVsSpec) walk).specVsExistingMap
        i' =
      (matched pipeline names i').filter (loc + 1 ≤ ·) := by
  have hspec := h.ahead i' (Nat.le_of_lt hlt)
  cases hmatched : matched pipeline names i' with
  | none =>
    rw [hmatched] at hspec
    exact foldl_pass_of_deletes (.inl hspec)
  | some loc' =>
    rw [hmatched, Option.filter_some] at hspec
    rw [Option.filter_some]
    have hne : loc' ≠ loc := by
      rintro rfl
      exact absurd (matched_inj hnodup hloc hmatched) (Nat.ne_of_lt hlt)
    by_cases hahead : loc + 1 ≤ loc'
    · rw [if_pos (decide_eq_true hahead), foldl_pass_of_not_deletes, hspec, if_pos]
      · exact decide_eq_true (by omega)
      · -- an entry that the map does not have deletes a name that has been placed
        rintro j hj ⟨-, hzero⟩
        have hj' : matched pipeline names i' = some j := by
          rw [← existingVsSpec_iff hnodup]
          cases hspecified : (matchPositions (lastPosition pipeline) names).existingVsSpec j
            with
          | none =>
            rw [hspecified, Option.getD_none] at hzero
            omega
          | some i'' =>
            rw [hspecified, Option.getD_some] at hzero
            rw [hzero]
        rw [hmatched] at hj'
        obtain rfl := Option.some.inj hj'
        obtain ⟨-, hlt'⟩ := List.mem_range'_1.mp hj
        omega
    · rw [if_neg (by simpa using hahead)]
      apply foldl_pass_of_deletes
      by_cases hpassed : walk.lastMatched ≤ loc'
      · right
        refine ⟨loc', ?_, ?_, ?_⟩
        · rw [List.mem_range'_1]
          omega
        · obtain ⟨m', hm', hloc'⟩ := matched_some hmatched
          rw [List.getD_eq_getElem?_getD, (lastPosition_some hloc').1, Option.getD_some]
          exact hours m' (List.mem_of_getElem? hm')
        · rw [(existingVsSpec_iff hnodup).mpr hmatched, Option.getD_some]
      · left
        rw [hspec, if_neg (by simpa using hpassed)]

/-- One name. -/
theorem Placed.place (hnodup : names.Nodup)
    (hours : ∀ m ∈ names, hasSignozPipelineProcessorPrefix m = true) {walk : Walk} {m : String}
    {i : Nat} (h : Placed pipeline names i walk) (hm : names[i]? = some m) :
    Placed pipeline names (i + 1) (walk.place pipeline
      (matchPositions (lastPosition pipeline) names).existingVsSpec m i) := by
  have hm' : hasSignozPipelineProcessorPrefix m = true := hours m (List.mem_of_getElem? hm)
  have htake : names.take (i + 1) = names.take i ++ [m] := by
    rw [List.take_add_one, hm, Option.toList_some]
  cases hspec : walk.specVsExistingMap i with
  | none =>
    rw [Walk.place, hspec]
    constructor
    · exact h.le
    · rw [List.filter_append, h.foreign, List.filter_cons_of_neg (by simp [hm']), List.filter_nil,
        List.append_nil]
    · rw [List.filter_append, h.ours, htake, List.filter_cons_of_pos hm', List.filter_nil]
    · exact fun i' hi' => h.ahead i' (Nat.le_of_succ_le hi')
    · intro i' hi' loc hloc
      rcases Nat.lt_succ_iff_lt_or_eq.mp hi' with hlt | rfl
      · exact h.behind i' hlt loc hloc
      · have hnone := (h.ahead i' (Nat.le_refl i')).symm.trans hspec
        rw [hloc, Option.filter_some] at hnone
        split at hnone
        · cases hnone
        · rename_i hbehind
          simpa using hbehind
  | some loc =>
    have hahead := (h.ahead i (Nat.le_refl i)).symm.trans hspec
    rw [Option.filter_eq_some_iff, decide_eq_true_eq] at hahead
    obtain ⟨hloc, hle⟩ := hahead
    have hat : pipeline[loc]? = some m := by
      obtain ⟨m', hm', hposition⟩ := matched_some hloc
      obtain rfl := Option.some.inj (hm.symm.trans hm')
      exact (lastPosition_some hposition).1
    rw [place_matched _ hspec hle hat]
    constructor
    · exact (List.getElem?_eq_some_iff.mp hat).1
    · rw [List.filter_append, List.filter_append, h.foreign, take_split hle hat,
        List.filter_append, List.filter_append, List.filter_filter]
      simp only [Bool.and_self]
    · rw [List.filter_append, List.filter_append, h.ours, filter_ours_of_foreign, htake,
        List.append_nil, List.filter_cons_of_pos hm', List.filter_nil]
    · exact fun i' hi' => ahead_pass hnodup hours hi' h hle hloc
    · intro i' hi' loc' hloc'
      rcases Nat.lt_succ_iff_lt_or_eq.mp hi' with hlt | rfl
      · have hbefore := h.behind i' hlt loc' hloc'
        dsimp only
        omega
      · obtain rfl := Option.some.inj (hloc.symm.trans hloc')
        exact Nat.lt_succ_self loc

/-- The names from the `i`-th on, one after another: `I` holds at the end if it holds at the
`i`-th name and each name leads from it to the next. -/
theorem walk_induction {I : Nat → Walk → Prop}
    (step : ∀ i m walk, names[i]? = some m → I i walk → I (i + 1) (walk.place pipeline
      (matchPositions (lastPosition pipeline) names).existingVsSpec m i))
    (init : I 0 ⟨(matchPositions (lastPosition pipeline) names).specVsExistingMap, 0, []⟩) :
    I names.length (walkNames pipeline names) := by
  have hrun : ∀ (rest done : List String) (walk : Walk), names = done ++ rest →
      I done.length walk → I names.length ((rest.zipIdx done.length).foldl
        (fun walk p => walk.place pipeline
          (matchPositions (lastPosition pipeline) names).existingVsSpec p.1 p.2) walk) := by
    intro rest
    induction rest with
    | nil =>
      intro done walk hnames h
      rw [hnames, List.append_nil]
      exact h
    | cons m rest ih =>
      intro done walk hnames h
      have hm : names[done.length]? = some m := by
        rw [hnames, List.getElem?_append_right (Nat.le_refl _), Nat.sub_self,
          List.getElem?_cons_zero]
      have hnext := step done.length m walk hm h
      have hlength : done.length + 1 = (done ++ [m]).length := by simp
      rw [hlength] at hnext
      rw [List.zipIdx_cons, List.foldl_cons, hlength]
      exact ih (done ++ [m]) _ (by rw [hnames, List.append_cons]) hnext
  exact hrun names [] _ rfl init

theorem placed_start : Placed pipeline names 0
    ⟨(matchPositions (lastPosition pipeline) names).specVsExistingMap, 0, []⟩ where
  le := Nat.zero_le _
  foreign := rfl
  ours := rfl
  ahead i' _ := by
    dsimp only
    rw [specVsExistingMap_eq]
    cases matched pipeline names i' with
    | none => rfl
    | some loc => rfl
  behind i' hi' := absurd hi' (Nat.not_lt_zero i')

theorem placed_walkNames (hnodup : names.Nodup)
    (hours : ∀ m ∈ names, hasSignozPipelineProcessorPrefix m = true) :
    Placed pipeline names names.length (walkNames pipeline names) :=
  walk_induction (fun _ _ _ hm h => h.place hnodup hours hm) placed_start

/-- Nothing of ours is left behind the cursor at the end. -/
theorem foreign_after (hnodup : names.Nodup)
    (hours : ∀ m ∈ names, hasSignozPipelineProcessorPrefix m = true)
    (hwanted : ∀ m ∈ pipeline, hasSignozPipelineProcessorPrefix m = true → m ∈ names) :
    (pipeline.drop (walkNames pipeline names).lastMatched).filter
      hasSignozPipelineProcessorPrefix = [] := by
  rw [List.filter_eq_nil_iff]
  intro m hm hown
  obtain ⟨q, hq⟩ := List.mem_iff_getElem?.mp hm
  rw [List.getElem?_drop] at hq
  obtain ⟨i, hi⟩ := List.mem_iff_getElem?.mp (hwanted m (List.mem_of_mem_drop hm) hown)
  cases hposition : lastPosition pipeline m with
  | none => exact lastPosition_none hposition (List.mem_of_mem_drop hm)
  | some loc =>
    have hmatched : matched pipeline names i = some loc := by
      rw [matched, hi, Option.bind_some, hposition]
    have hbehind := (placed_walkNames hnodup hours).behind i
      (List.getElem?_eq_some_iff.mp hi).1 loc hmatched
    have hlast := (lastPosition_some hposition).2 _ hq
    omega

end Walking

/-! ## The new list -/

/-- The list that the walk leaves, with what the cursor has not reached. -/
def merged (pipeline names : List String) : List String :=
  let walk := walkNames pipeline names
  walk.newPipeline ++ pipeline.drop walk.lastMatched

section Merged

variable {pipeline names : List String}

theorem filter_foreign_merged (hnodup : names.Nodup)
    (hours : ∀ m ∈ names, hasSignozPipelineProcessorPrefix m = true) :
    (merged pipeline names).filter (!hasSignozPipelineProcessorPrefix ·) =
      pipeline.filter (!hasSignozPipelineProcessorPrefix ·) := by
  have hplaced : Placed pipeline names names.length (walkNames pipeline names) :=
    placed_walkNames hnodup hours
  rw [merged, List.filter_append, hplaced.foreign, ← List.filter_append, List.take_append_drop]

theorem filter_ours_merged (hnodup : names.Nodup)
    (hours : ∀ m ∈ names, hasSignozPipelineProcessorPrefix m = true)
    (hwanted : ∀ m ∈ pipeline, hasSignozPipelineProcessorPrefix m = true → m ∈ names) :
    (merged pipeline names).filter hasSignozPipelineProcessorPrefix = names := by
  have hplaced : Placed pipeline names names.length (walkNames pipeline names) :=
    placed_walkNames hnodup hours
  rw [merged, List.filter_append, hplaced.ours, foreign_after hnodup hours hwanted,
    List.take_length, List.append_nil]

theorem checkDuplicateString_eq_false {l : List String} (h : l.Nodup) :
    checkDuplicateString l = false := by
  rw [← Bool.not_eq_true, checkDuplicateString, repeats_iff, not_not]
  exact ⟨h, fun m _ => List.not_mem_nil⟩

/-- A list without duplicates among ours and among the others has none. -/
theorem nodup_of_filters {l : List String}
    (hours : (l.filter hasSignozPipelineProcessorPrefix).Nodup)
    (hforeign : (l.filter (!hasSignozPipelineProcessorPrefix ·)).Nodup) : l.Nodup := by
  rw [List.nodup_iff_count_le_one]
  intro m
  by_cases hm : hasSignozPipelineProcessorPrefix m = true
  · rw [← List.count_filter hm]
    exact List.nodup_iff_count_le_one.mp hours m
  · have hm' : (!hasSignozPipelineProcessorPrefix m) = true := by
      rw [Bool.not_eq_true']
      exact Bool.eq_false_iff.mpr hm
    rw [← List.count_filter (p := (!hasSignozPipelineProcessorPrefix ·)) hm']
    exact List.nodup_iff_count_le_one.mp hforeign m

theorem filter_foreign_wanted (current names : List String) :
    (wantedProcessors current names).filter (!hasSignozPipelineProcessorPrefix ·) =
      current.filter (!hasSignozPipelineProcessorPrefix ·) := by
  rw [wantedProcessors, List.filter_filter]
  congr 1
  funext m
  cases hasSignozPipelineProcessorPrefix m with
  | true => rfl
  | false => simp

variable {current : List String} {m : String}

theorem mem_of_wanted (h : m ∈ wantedProcessors current names)
    (hown : hasSignozPipelineProcessorPrefix m = true) : m ∈ names := by
  have hkept := (List.mem_filter.mp h).2
  simpa [hown] using hkept

theorem wantedProcessors_of_ours (h : current.filter hasSignozPipelineProcessorPrefix = names) :
    wantedProcessors current names = current := by
  rw [wantedProcessors, List.filter_eq_self]
  intro m hm
  by_cases hown : hasSignozPipelineProcessorPrefix m = true
  · have hmem : m ∈ names := h ▸ List.mem_filter.mpr ⟨hm, hown⟩
    simp [hmem]
  · simp [hown]

/-! ## A list that is merged already -/

/-- A name to come is not among what has been taken. -/
theorem not_mem_take {i : Nat} (hnodup : names.Nodup) (hm : names[i]? = some m) :
    m ∉ names.take i := by
  intro hmem
  obtain ⟨i', hi'⟩ := List.mem_iff_getElem?.mp hmem
  have hlt : i' < i := by
    have hlen := (List.getElem?_eq_some_iff.mp hi').1
    rw [List.length_take] at hlen
    omega
  rw [List.getElem?_take_of_lt hlt] at hi'
  have heq := (List.getElem?_inj (List.getElem?_eq_some_iff.mp hi').1 hnodup).mp (hi'.trans hm.symm)
  exact Nat.ne_of_lt hlt heq

/-- Nothing of ours stands between two desired names that follow each other. -/
theorem filter_between {i k loc : Nat} (hnodup : names.Nodup)
    (hfilter : pipeline.filter hasSignozPipelineProcessorPrefix = names)
    (hown : hasSignozPipelineProcessorPrefix m = true) (hm : names[i]? = some m)
    (hbefore : (pipeline.take k).filter hasSignozPipelineProcessorPrefix = names.take i)
    (hle : k ≤ loc) (hat : pipeline[loc]? = some m) :
    ((pipeline.drop k).take (loc - k)).filter hasSignozPipelineProcessorPrefix = [] := by
  have hlen : i < names.length := (List.getElem?_eq_some_iff.mp hm).1
  have hnames := hfilter
  rw [← List.take_append_drop (loc + 1) pipeline, take_split hle hat, List.filter_append,
    List.filter_append, List.filter_append, hbefore, List.filter_cons_of_pos hown,
    List.filter_nil] at hnames
  cases hbetween : ((pipeline.drop k).take (loc - k)).filter hasSignozPipelineProcessorPrefix with
  | nil => rfl
  | cons y ys =>
    -- the first of them would be the next name, which stands behind them
    rw [hbetween] at hnames
    have hy : names[i]? = some y := by
      rw [← hnames, List.append_assoc, List.append_assoc,
        List.getElem?_append_right (by rw [List.length_take]; omega), List.length_take,
        Nat.min_eq_left (Nat.le_of_lt hlen), Nat.sub_self]
      rfl
    obtain rfl := Option.some.inj (hm.symm.trans hy)
    rw [← hnames, List.append_assoc, List.append_assoc] at hnodup
    have htail := (List.nodup_append.mp hnodup).2.1
    have hnot := (List.nodup_cons.mp htail).1
    exact absurd (by simp) hnot

/-- Of a list whose processors of ours are the desired ones in their order, the walk copies what
it passes. -/
theorem place_in_order (hnodup : names.Nodup)
    (hfilter : pipeline.filter hasSignozPipelineProcessorPrefix = names) {walk : Walk} {i : Nat}
    (h : Placed pipeline names i walk) (hcopy : walk.newPipeline = pipeline.take walk.lastMatched)
    (hm : names[i]? = some m) :
    (walk.place pipeline (matchPositions (lastPosition pipeline) names).existingVsSpec m
        i).newPipeline =
      pipeline.take (walk.place pipeline
        (matchPositions (lastPosition pipeline) names).existingVsSpec m i).lastMatched := by
  have hmem : m ∈ pipeline := by
    have hmem : m ∈ names := List.mem_of_getElem? hm
    rw [← hfilter] at hmem
    exact (List.mem_filter.mp hmem).1
  cases hposition : lastPosition pipeline m with
  | none => exact absurd hmem (lastPosition_none hposition)
  | some loc =>
    have hat := (lastPosition_some hposition).1
    have hmatched : matched pipeline names i = some loc := by
      rw [matched, hm, Option.bind_some, hposition]
    have hown : hasSignozPipelineProcessorPrefix m = true := by
      have hmem : m ∈ names := List.mem_of_getElem? hm
      rw [← hfilter] at hmem
      exact (List.mem_filter.mp hmem).2
    have hbefore : (pipeline.take walk.lastMatched).filter hasSignozPipelineProcessorPrefix =
        names.take i := by
      rw [← hcopy, h.ours]
    have hle : walk.lastMatched ≤ loc := by
      by_contra hlt
      apply not_mem_take hnodup hm
      rw [← hbefore, List.mem_filter]
      refine ⟨List.mem_of_getElem? (i := loc) ?_, hown⟩
      rw [List.getElem?_take_of_lt (Nat.not_le.mp hlt), hat]
    have hspec : walk.specVsExistingMap i = some loc := by
      rw [h.ahead i (Nat.le_refl i), hmatched, Option.filter_some, if_pos (decide_eq_true hle)]
    have hbetween : ((pipeline.drop walk.lastMatched).take (loc - walk.lastMatched)).filter
        (!hasSignozPipelineProcessorPrefix ·) =
        (pipeline.drop walk.lastMatched).take (loc - walk.lastMatched) := by
      have hnone := filter_between hnodup hfilter hown hm hbefore hle hat
      rw [List.filter_eq_nil_iff] at hnone
      rw [List.filter_eq_self]
      intro y hy
      rw [Bool.not_eq_true']
      exact Bool.eq_false_iff.mpr (hnone y hy)
    rw [place_matched _ hspec hle hat, hbetween, hcopy]
    exact (take_split hle hat).symm

theorem merged_in_order (hnodup : names.Nodup)
    (hfilter : pipeline.filter hasSignozPipelineProcessorPrefix = names) :
    merged pipeline names = pipeline := by
  have hours : ∀ m ∈ names, hasSignozPipelineProcessorPrefix m = true := by
    intro m hm
    rw [← hfilter] at hm
    exact (List.mem_filter.mp hm).2
  have hcopy : Placed pipeline names names.length (walkNames pipeline names) ∧
      (walkNames pipeline names).newPipeline =
        pipeline.take (walkNames pipeline names).lastMatched := walk_induction
    (I := fun i walk => Placed pipeline names i walk ∧
      walk.newPipeline = pipeline.take walk.lastMatched)
    (fun _ _ _ hm h => ⟨h.1.place hnodup hours hm, place_in_order hnodup hfilter h.1 h.2 hm⟩)
    ⟨placed_start, rfl⟩
  rw [merged, hcopy.2, List.take_append_drop]

/-- What is built from a list without duplicates among the others. -/
theorem buildCollectorPipelineProcessorsList_eq
    (hcurrent : (current.filter (!hasSignozPipelineProcessorPrefix ·)).Nodup) (hnodup : names.Nodup)
    (hours : ∀ m ∈ names, hasSignozPipelineProcessorPrefix m = true) :
    buildCollectorPipelineProcessorsList current names =
      (merged (wantedProcessors current names) names, none) := by
  have hlist : (merged (wantedProcessors current names) names).Nodup := by
    apply nodup_of_filters
    · rw [filter_ours_merged hnodup hours fun m hm hown => mem_of_wanted hm hown]
      exact hnodup
    · rw [filter_foreign_merged hnodup hours, filter_foreign_wanted]
      exact hcurrent
  have hcheck := checkDuplicateString_eq_false hlist
  rw [merged] at hcheck
  rw [buildCollectorPipelineProcessorsList, hcheck]
  rfl

end Merged

/-- The new list has the processors that are not ours as the current one has them, the desired ones
in their order, and no others; building it again changes nothing. -/
theorem buildCollectorPipelineProcessorsList_merges (current names : List String)
    (hcurrent : (current.filter (!hasSignozPipelineProcessorPrefix ·)).Nodup)
    (hnodup : names.Nodup) (hours : ∀ m ∈ names, hasSignozPipelineProcessorPrefix m = true) :
    ∃ newPipeline,
      buildCollectorPipelineProcessorsList current names = (newPipeline, none) ∧
      newPipeline.filter (!hasSignozPipelineProcessorPrefix ·) =
        current.filter (!hasSignozPipelineProcessorPrefix ·) ∧
      newPipeline.filter hasSignozPipelineProcessorPrefix = names ∧
      newPipeline.Nodup ∧
      buildCollectorPipelineProcessorsList newPipeline names = (newPipeline, none) := by
  have hforeign : (merged (wantedProcessors current names) names).filter
      (!hasSignozPipelineProcessorPrefix ·) =
        current.filter (!hasSignozPipelineProcessorPrefix ·) := by
    rw [filter_foreign_merged hnodup hours, filter_foreign_wanted]
  have hown : (merged (wantedProcessors current names) names).filter
      hasSignozPipelineProcessorPrefix = names :=
    filter_ours_merged hnodup hours fun m hm hown => mem_of_wanted hm hown
  refine ⟨_, buildCollectorPipelineProcessorsList_eq hcurrent hnodup hours, hforeign, hown, ?_, ?_⟩
  · apply nodup_of_filters
    · rwa [hown]
    · rwa [hforeign]
  · rw [buildCollectorPipelineProcessorsList_eq (hforeign.symm ▸ hcurrent) hnodup hours,
      wantedProcessors_of_ours hown, merged_in_order hnodup hown]

/-- A list that has the desired processors the other way round, one of them twice. -/
theorem buildCollectorPipelineProcessorsList_merges_reversed :
    ∃ newPipeline,
      buildCollectorPipelineProcessorsList
        ["signozlogspipeline/pipeline_a", "batch", "signozlogspipeline/pipeline_b",
          "signozlogspipeline/pipeline_a"]
        ["signozlogspipeline/pipeline_b", "signozlogspipeline/pipeline_a"] = (newPipeline, none) ∧
      newPipeline.filter (!hasSignozPipelineProcessorPrefix ·) = ["batch"] ∧
      newPipeline.filter hasSignozPipelineProcessorPrefix =
        ["signozlogspipeline/pipeline_b", "signozlogspipeline/pipeline_a"] := by
  obtain ⟨newPipeline, hbuild, hforeign, hown, -⟩ := buildCollectorPipelineProcessorsList_merges
    ["signozlogspipeline/pipeline_a", "batch", "signozlogspipeline/pipeline_b",
      "signozlogspipeline/pipeline_a"]
    ["signozlogspipeline/pipeline_b", "signozlogspipeline/pipeline_a"]
    (by decide +kernel) (by decide +kernel) (by decide +kernel)
  exact ⟨newPipeline, hbuild, hforeign, hown⟩

end Signoz.LogPipelines
