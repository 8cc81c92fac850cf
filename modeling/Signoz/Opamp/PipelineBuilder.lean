import Mathlib.Data.List.Perm.Basic
import Signoz.Lib.ListScans

/-!
# The processors of ingestion control

`pipeline_builder.go` puts the processors that ingestion control manages for a signal into the
pipeline of a collector, or takes them out. The code that takes one out leaves out the element
before it as well, unless it stands first, and the code that puts one behind the first element of
the pipeline puts it in its place.
-/

namespace Signoz.Opamp

open Lib.ListScans

/-! ## The settings -/

/-- `pipelineStatus`. -/
structure PipelineStatus where
  name : String
  enabled : Bool

/-- `tracesPipelineSpec` and `metricsPipelineSpec`, in the order of their keys. -/
structure PipelineSpecs where
  traces : List PipelineStatus
  metrics : List PipelineStatus
  traces_names : traces.map PipelineStatus.name = ["signoz_tail_sampling", "batch"]
  metrics_names : metrics.map PipelineStatus.name = ["filter", "batch"]

def initialSpecs : PipelineSpecs where
  traces := [⟨"signoz_tail_sampling", false⟩, ⟨"batch", true⟩]
  metrics := [⟨"filter", false⟩, ⟨"batch", true⟩]
  traces_names := rfl
  metrics_names := rfl

/-- The loop of `updatePipelineSpec`. -/
def setEnabled (name : String) (enabled : Bool) (spec : List PipelineStatus) :
    List PipelineStatus :=
  spec.map fun p => if p.name = name then { p with enabled := enabled } else p

theorem setEnabled_names (name : String) (enabled : Bool) (spec : List PipelineStatus) :
    (setEnabled name enabled spec).map PipelineStatus.name = spec.map PipelineStatus.name := by
  rw [setEnabled, List.map_map]
  apply List.map_congr_left
  intro p _
  dsimp only [Function.comp]
  split
  · rfl
  · rfl

/-- `updatePipelineSpec`. -/
def updatePipelineSpec (specs : PipelineSpecs) (signal name : String) (enabled : Bool) :
    PipelineSpecs :=
  if signal = "metrics" then
    { specs with
      metrics := setEnabled name enabled specs.metrics
      metrics_names := (setEnabled_names _ _ _).trans specs.metrics_names }
  else if signal = "traces" then
    { specs with
      traces := setEnabled name enabled specs.traces
      traces_names := (setEnabled_names _ _ _).trans specs.traces_names }
  else specs

/-- The spec of a signal. -/
def PipelineSpecs.spec (specs : PipelineSpecs) (signal : String) : Option (List PipelineStatus) :=
  if signal = "metrics" then some specs.metrics
  else if signal = "traces" then some specs.traces
  else none

/-! ## The pipeline -/

/-- `pipeline[low:]`; `none` when an index is out of range. -/
def sliceFrom (pipeline : List String) (low : Int) : Option (List String) :=
  if 0 ≤ low ∧ low ≤ pipeline.length then some (pipeline.drop low.toNat) else none

/-- `pipeline[:high]`. The capacity of a slice may exceed its length, but where `buildPipeline` cuts
up to a position it also cuts from there or from a later one. -/
def sliceTo (pipeline : List String) (high : Int) : Option (List String) :=
  if 0 ≤ high ∧ high ≤ pipeline.length then some (pipeline.take high.toNat) else none

/-- A disabled element at a position is taken out. -/
def removePosition (pipeline : List String) (currentPos : Int) : Option (List String) :=
  if currentPos - 1 ≤ 0 then sliceFrom pipeline (currentPos + 1)
  else
    (sliceTo pipeline (currentPos - 1)).bind fun before =>
      (sliceFrom pipeline (currentPos + 1)).map fun after => before ++ after

/-- A new element is put behind the one that was matched last. -/
def insertBehind (pipeline : List String) (lastMatched : Int) (name : String) :
    Option (List String) :=
  if lastMatched ≤ 0 then (sliceFrom pipeline (lastMatched + 1)).map (name :: ·)
  else
    (sliceTo pipeline lastMatched).bind fun prior =>
      (sliceFrom pipeline lastMatched).map fun next => prior ++ name :: next

/-- The variables of the loop. -/
structure Building where
  pipeline : List String
  lastMatched : Int
  inserts : Int

/-- The body of the loop. -/
def buildOne (existing : String → Option Nat) (b : Building) (m : PipelineStatus) :
    Option Building :=
  match existing m.name with
  | some loc =>
    let currentPos := loc + b.inserts
    if m.enabled then some { b with lastMatched := currentPos }
    else
      (removePosition b.pipeline currentPos).map fun pipeline =>
        { b with pipeline := pipeline, lastMatched := currentPos }
  | none =>
    if m.enabled then
      (insertBehind b.pipeline b.lastMatched m.name).map fun pipeline =>
        { b with pipeline := pipeline, inserts := b.inserts + 1 }
    else some b

/-- What `buildPipeline` does: it returns a pipeline, or one with an error, or it panics. -/
inductive Built where
  | returns (pipeline : List String)
  | fails (pipeline : List String) (err : String)
  | panics
deriving DecidableEq

/-- `checkDuplicates`. -/
def checkDuplicates (pipeline : List String) : Bool := repeats [] pipeline

/-- The loop over the spec. -/
def buildAll (spec : List PipelineStatus) (current : List String) : Option Building :=
  spec.foldlM (buildOne (lastPosition current)) ⟨current, -1, 0⟩

/-- The end of `buildPipeline`, for the spec of the signal. -/
def buildSpec (spec : List PipelineStatus) (current : List String) : Built :=
  match buildAll spec current with
  | none => .panics
  | some b =>
    if checkDuplicates b.pipeline then
      .fails b.pipeline ("the effective config has an unexpected processor sequence: [" ++
        " ".intercalate b.pipeline ++ "]")
    else .returns b.pipeline

/-- `buildPipeline`. -/
def buildPipeline (specs : PipelineSpecs) (signal : String) (current : List String) : Built :=
  match specs.spec signal with
  | none => .fails [] "invalid signal"
  | some spec => buildSpec spec current

/-- The pipeline has the elements that are not managed as the current one has them, and each managed
one once if it is enabled, and else not. -/
structure EditsOwn (spec : List PipelineStatus) (current : List String) (built : Built) : Prop where
  indexes : built ≠ .panics
  others : ∀ pipeline, built = .returns pipeline →
    pipeline.filter (fun name => name ∉ spec.map PipelineStatus.name) =
      current.filter fun name => name ∉ spec.map PipelineStatus.name
  own : ∀ pipeline, built = .returns pipeline →
    ∀ m ∈ spec, pipeline.count m.name = m.enabled.toNat

/-- A disabled element that is present stands first; the second element is not missing where the
first one stands first; and where the second one is taken out, the first is not missing. -/
def Editable : List PipelineStatus → List String → Prop
  | [first, second], current =>
    (∀ m ∈ [first, second], m.enabled = false → m.name ∈ current →
      current.head? = some m.name) ∧
    (current.head? = some first.name → second.enabled = true → second.name ∈ current) ∧
    (second.enabled = false → second.name ∈ current → first.enabled = true →
      first.name ∈ current)
  | _, _ => True

/-! ## Removals and insertions -/

section Edits

variable {pipeline pipeline' : List String}

theorem sliceFrom_some {low : Int} (h : sliceFrom pipeline low = some pipeline') :
    (0 ≤ low ∧ low ≤ pipeline.length) ∧ pipeline' = pipeline.drop low.toNat := by
  rw [sliceFrom] at h
  split_ifs at h with hlow
  exact ⟨hlow, (Option.some.inj h).symm⟩

theorem sliceTo_some {high : Int} (h : sliceTo pipeline high = some pipeline') :
    (0 ≤ high ∧ high ≤ pipeline.length) ∧ pipeline' = pipeline.take high.toNat := by
  rw [sliceTo] at h
  split_ifs at h with hhigh
  exact ⟨hhigh, (Option.some.inj h).symm⟩

/-- A removal leaves a part of the pipeline. It takes out the first element, or two elements. -/
theorem removePosition_some {pos : Int} (hpos : 0 ≤ pos)
    (h : removePosition pipeline pos = some pipeline') :
    pipeline'.Sublist pipeline ∧
      ((pos = 0 ∧ pipeline'.length + 1 = pipeline.length) ∨
        (pos ≠ 0 ∧ pipeline'.length + 2 = pipeline.length)) := by
  rw [removePosition] at h
  split_ifs at h with hfront
  · obtain ⟨⟨-, hle⟩, rfl⟩ := sliceFrom_some h
    refine ⟨List.drop_sublist _ _, ?_⟩
    rw [List.length_drop]
    omega
  · obtain ⟨before, hbefore, h⟩ := Option.bind_eq_some_iff.mp h
    obtain ⟨after, hafter, rfl⟩ := Option.map_eq_some_iff.mp h
    obtain ⟨⟨-, hle⟩, rfl⟩ := sliceTo_some hbefore
    obtain ⟨⟨-, hle'⟩, rfl⟩ := sliceFrom_some hafter
    refine ⟨?_, .inr ⟨by omega, ?_⟩⟩
    · have hsub : (pipeline.drop (pos + 1).toNat).Sublist (pipeline.drop (pos - 1).toNat) :=
        List.drop_sublist_drop_left _ (by omega)
      have happend := hsub.append_left (pipeline.take (pos - 1).toNat)
      rwa [List.take_append_drop] at happend
    · rw [List.length_append, List.length_take, List.length_drop]
      omega

/-- An insertion behind the first element replaces it. Any other one puts a new element in. -/
theorem insertBehind_some {last : Int} {name : String} (hlast : -1 ≤ last)
    (h : insertBehind pipeline last name = some pipeline') :
    (last = 0 ∧ pipeline' = name :: pipeline.drop 1 ∧ pipeline ≠ []) ∨
      (last ≠ 0 ∧ ∃ before after, pipeline = before ++ after ∧
        pipeline' = before ++ name :: after) := by
  rw [insertBehind] at h
  split_ifs at h with hfront
  · obtain ⟨rest, hrest, rfl⟩ := Option.map_eq_some_iff.mp h
    obtain ⟨⟨-, hle⟩, rfl⟩ := sliceFrom_some hrest
    obtain rfl | rfl : last = -1 ∨ last = 0 := by omega
    · exact .inr ⟨by decide, [], pipeline, rfl, rfl⟩
    · refine .inl ⟨rfl, rfl, ?_⟩
      rintro rfl
      exact absurd hle (by decide)
  · obtain ⟨before, hbefore, h⟩ := Option.bind_eq_some_iff.mp h
    obtain ⟨after, hafter, rfl⟩ := Option.map_eq_some_iff.mp h
    obtain ⟨-, rfl⟩ := sliceTo_some hbefore
    obtain ⟨-, rfl⟩ := sliceFrom_some hafter
    exact .inr ⟨by omega, _, _, (List.take_append_drop _ _).symm, rfl⟩

theorem removePosition_head (name : String) (rest : List String) :
    removePosition (name :: rest) 0 = some rest := by
  rw [removePosition, if_pos (by decide), sliceFrom, if_pos]
  · rfl
  · rw [List.length_cons]
    omega

theorem insertBehind_splits (pipeline : List String) {last : Int} (name : String)
    (hlast : last = -1 ∨ (1 ≤ last ∧ last ≤ pipeline.length)) :
    ∃ before after, pipeline = before ++ after ∧
      insertBehind pipeline last name = some (before ++ name :: after) := by
  obtain rfl | ⟨hpos, hle⟩ := hlast
  · refine ⟨[], pipeline, rfl, ?_⟩
    rw [insertBehind, if_pos (by decide), sliceFrom, if_pos]
    · rfl
    · exact ⟨by decide, by simp⟩
  · refine ⟨_, _, (List.take_append_drop last.toNat pipeline).symm, ?_⟩
    have hrange : 0 ≤ last ∧ last ≤ pipeline.length := ⟨by omega, hle⟩
    rw [insertBehind, if_neg (by omega), sliceTo, sliceFrom, if_pos hrange, if_pos hrange]
    rfl

end Edits

/-! ## One element of the spec -/

section Step

variable {existing : String → Option Nat} {b b' : Building} {m : PipelineStatus}

/-- What the body of the loop does. -/
theorem buildOne_cases (h : buildOne existing b m = some b') :
    (∃ loc, existing m.name = some loc ∧ m.enabled = true ∧
      b' = { b with lastMatched := loc + b.inserts }) ∨
    (∃ loc pipeline, existing m.name = some loc ∧ m.enabled = false ∧
      removePosition b.pipeline (loc + b.inserts) = some pipeline ∧
      b' = { b with pipeline := pipeline, lastMatched := loc + b.inserts }) ∨
    (∃ pipeline, existing m.name = none ∧ m.enabled = true ∧
      insertBehind b.pipeline b.lastMatched m.name = some pipeline ∧
      b' = { b with pipeline := pipeline, inserts := b.inserts + 1 }) ∨
    (existing m.name = none ∧ m.enabled = false ∧ b' = b) := by
  rw [buildOne] at h
  split at h
  · rename_i loc hloc
    dsimp only at h
    split at h
    · rename_i henabled
      exact .inl ⟨loc, hloc, henabled, (Option.some.inj h).symm⟩
    · rename_i hdisabled
      obtain ⟨pipeline, hremove, rfl⟩ := Option.map_eq_some_iff.mp h
      exact .inr (.inl ⟨loc, pipeline, hloc, Bool.eq_false_iff.mpr hdisabled, hremove, rfl⟩)
  · rename_i hnone
    split at h
    · rename_i henabled
      obtain ⟨pipeline, hinsert, rfl⟩ := Option.map_eq_some_iff.mp h
      exact .inr (.inr (.inl ⟨pipeline, hnone, henabled, hinsert, rfl⟩))
    · rename_i hdisabled
      exact .inr (.inr (.inr ⟨hnone, Bool.eq_false_iff.mpr hdisabled, (Option.some.inj h).symm⟩))

/-- The variables stay in range. -/
structure Building.InRange (b : Building) : Prop where
  lastMatched : -1 ≤ b.lastMatched
  inserts : 0 ≤ b.inserts

theorem Building.InRange.step (h : b.InRange) (hstep : buildOne existing b m = some b') :
    b'.InRange := by
  obtain ⟨hlast, hinserts⟩ := h
  obtain ⟨loc, -, -, rfl⟩ | ⟨loc, pipeline, -, -, -, rfl⟩ | ⟨pipeline, -, -, -, rfl⟩ |
    ⟨-, -, rfl⟩ := buildOne_cases hstep
  · exact ⟨by dsimp only; omega, hinserts⟩
  · exact ⟨by dsimp only; omega, hinserts⟩
  · exact ⟨hlast, by dsimp only; omega⟩
  · exact ⟨hlast, hinserts⟩

/-- The pipeline gets no longer than it should: longer by an element that was missing, shorter by
one that is taken out. If it gets as long, an element that is taken out stands first, and one that
was missing is not put behind the first one. -/
theorem buildOne_length (h : b.InRange) (hstep : buildOne existing b m = some b') :
    b'.pipeline.length + (existing m.name).isSome.toNat ≤ b.pipeline.length + m.enabled.toNat ∧
      (b'.pipeline.length + (existing m.name).isSome.toNat =
          b.pipeline.length + m.enabled.toNat →
        (∀ loc, existing m.name = some loc → m.enabled = false → loc + b.inserts = 0) ∧
          (existing m.name = none → m.enabled = true → b.lastMatched ≠ 0)) := by
  obtain ⟨hlast, hinserts⟩ := h
  obtain ⟨loc, hloc, henabled, rfl⟩ | ⟨loc, pipeline, hloc, hdisabled, hremove, rfl⟩ |
    ⟨pipeline, hnone, henabled, hinsert, rfl⟩ | ⟨hnone, hdisabled, rfl⟩ := buildOne_cases hstep
  · rw [hloc, henabled]
    exact ⟨Nat.le_refl _, fun _ => ⟨fun _ _ h => (Bool.noConfusion h), fun h => nomatch h⟩⟩
  · obtain ⟨-, hlength⟩ := removePosition_some (by omega) hremove
    rw [hloc, hdisabled, Option.isSome_some, Bool.toNat_true, Bool.toNat_false]
    dsimp only
    refine ⟨by omega, fun heq => ⟨?_, fun h => nomatch h⟩⟩
    rintro loc' hloc' -
    obtain rfl := Option.some.inj hloc'
    omega
  · rw [hnone, henabled, Option.isSome_none, Bool.toNat_true, Bool.toNat_false]
    dsimp only
    obtain ⟨hzero, rfl, hne⟩ | ⟨hne, before, after, hbefore, rfl⟩ := insertBehind_some hlast hinsert
    · have hpos := List.length_pos_of_ne_nil hne
      rw [List.length_cons, List.length_drop]
      exact ⟨by omega, fun heq => absurd heq (by omega)⟩
    · rw [hbefore, List.length_append, List.length_append, List.length_cons]
      exact ⟨by omega, fun _ => ⟨fun _ h => (nomatch h), fun _ _ => hne⟩⟩
  · rw [hnone, hdisabled]
    exact ⟨Nat.le_refl _, fun _ => ⟨fun _ h => (nomatch h), fun _ h => Bool.noConfusion h⟩⟩

/-- No element comes twice in the pipeline when a missing one does not come in it. -/
theorem buildOne_nodup (h : b.InRange) (hstep : buildOne existing b m = some b')
    (hnodup : b.pipeline.Nodup) (hnew : existing m.name = none → m.name ∉ b.pipeline) :
    b'.pipeline.Nodup ∧ ∀ name ∈ b'.pipeline, name = m.name ∨ name ∈ b.pipeline := by
  obtain ⟨hlast, hinserts⟩ := h
  obtain ⟨loc, -, -, rfl⟩ | ⟨loc, pipeline, -, -, hremove, rfl⟩ |
    ⟨pipeline, hnone, -, hinsert, rfl⟩ | ⟨-, -, rfl⟩ := buildOne_cases hstep
  · exact ⟨hnodup, fun _ => .inr⟩
  · obtain ⟨hsub, -⟩ := removePosition_some (by omega) hremove
    exact ⟨hnodup.sublist hsub, fun _ hname => .inr (hsub.mem hname)⟩
  · obtain ⟨-, rfl, -⟩ | ⟨-, before, after, hbefore, rfl⟩ := insertBehind_some hlast hinsert
    · have hsub := List.drop_sublist 1 b.pipeline
      refine ⟨List.nodup_cons.mpr ⟨fun hname => hnew hnone (hsub.mem hname), hnodup.sublist hsub⟩,
        ?_⟩
      intro name hname
      exact (List.mem_cons.mp hname).imp_right hsub.mem
    · have hperm : (before ++ m.name :: after).Perm (m.name :: b.pipeline) := by
        rw [hbefore]
        exact List.perm_middle
      refine ⟨hperm.nodup_iff.mpr (List.nodup_cons.mpr ⟨hnew hnone, hnodup⟩), ?_⟩
      exact fun name hname => List.mem_cons.mp (hperm.mem_iff.mp hname)
  · exact ⟨hnodup, fun _ => .inr⟩

theorem lastMatched_of_some {loc : Nat} (hloc : existing m.name = some loc)
    (h : buildOne existing b m = some b') : b'.lastMatched = loc + b.inserts := by
  obtain ⟨loc', hloc', -, rfl⟩ | ⟨loc', _, hloc', -, -, rfl⟩ | ⟨_, hnone, -, -, rfl⟩ |
    ⟨hnone, -, rfl⟩ := buildOne_cases h
  · rw [Option.some.inj (hloc'.symm.trans hloc)]
  · rw [Option.some.inj (hloc'.symm.trans hloc)]
  · cases hnone.symm.trans hloc
  · cases hnone.symm.trans hloc

theorem inserts_of_none (hnone : existing m.name = none) (henabled : m.enabled = true)
    (h : buildOne existing b m = some b') : b'.inserts = b.inserts + 1 := by
  obtain ⟨_, hloc, -, rfl⟩ | ⟨_, _, hloc, -, -, rfl⟩ | ⟨_, -, -, -, rfl⟩ | ⟨-, hdisabled, rfl⟩ :=
    buildOne_cases h
  · cases hloc.symm.trans hnone
  · cases hloc.symm.trans hnone
  · rfl
  · cases hdisabled.symm.trans henabled

/-- The element is in the pipeline as it is set, and all others as they were. -/
structure Edited (m : PipelineStatus) (before after : List String) : Prop where
  own : after.count m.name = m.enabled.toNat
  others : ∀ keep : String → Bool, keep m.name = false → after.filter keep = before.filter keep

theorem Edited.count {before after : List String} (h : Edited m before after) {name : String}
    (hne : name ≠ m.name) : after.count name = before.count name := by
  have hfilter := h.others (· == name) (beq_eq_false_iff_ne.mpr (Ne.symm hne))
  rw [List.count_eq_length_filter, List.count_eq_length_filter, hfilter]

/-- An element that is present, and enabled. -/
theorem edited_of_count {l : List String} (h : l.count m.name = m.enabled.toNat) :
    Edited m l l where
  own := h
  others _ _ := rfl

/-- The first element is taken out. -/
theorem edited_of_removed {l : List String} (hdisabled : m.enabled = false)
    (hnot : m.name ∉ l) : Edited m (m.name :: l) l where
  own := by rw [hdisabled, List.count_eq_zero_of_not_mem hnot, Bool.toNat_false]
  others keep hkeep := by
    rw [List.filter_cons_of_neg]
    rw [hkeep]
    exact Bool.false_ne_true

/-- An element is put in. -/
theorem edited_of_inserted {before after : List String} (henabled : m.enabled = true)
    (hnot : m.name ∉ before ++ after) :
    Edited m (before ++ after) (before ++ m.name :: after) where
  own := by
    rw [List.perm_middle.count_eq, List.count_cons_self, List.count_eq_zero_of_not_mem hnot,
      henabled, Bool.toNat_true]
  others keep hkeep := by
    rw [List.filter_append, List.filter_append, List.filter_cons_of_neg]
    rw [hkeep]
    exact Bool.false_ne_true

end Step

/-! ## Two elements -/

section Two

variable {current : List String} {first second : PipelineStatus}

/-- Whether an element is present. -/
theorem isSome_lastPosition (hnodup : current.Nodup) (name : String) :
    (lastPosition current name).isSome.toNat = current.count name := by
  cases hposition : lastPosition current name with
  | none =>
    rw [List.count_eq_zero_of_not_mem (lastPosition_none hposition)]
    rfl
  | some loc =>
    have hmem := List.mem_of_getElem? (lastPosition_some hposition).1
    rw [List.count_eq_one_of_mem hnodup hmem]
    rfl

/-- The first position is that of the head. -/
theorem head_iff_lastPosition (hnodup : current.Nodup) (name : String) :
    current.head? = some name ↔ lastPosition current name = some 0 := by
  rw [List.head?_eq_getElem?]
  constructor
  · intro h
    cases hposition : lastPosition current name with
    | none => exact absurd (List.mem_of_getElem? h) (lastPosition_none hposition)
    | some loc =>
      have hat := (lastPosition_some hposition).1
      have hlt := (List.getElem?_eq_some_iff.mp h).1
      rw [(List.getElem?_inj hlt hnodup).mp (h.trans hat.symm)]
  · exact fun h => (lastPosition_some h).1

/-- A list counts the elements that are not managed and those that are. -/
theorem length_eq_counts (hne : first.name ≠ second.name) (l : List String) :
    l.length = (l.filter fun name => name ∉ [first, second].map PipelineStatus.name).length +
      l.count first.name + l.count second.name := by
  induction l with
  | nil => rfl
  | cons name l ih =>
    rw [List.filter_cons, List.count_cons, List.count_cons, List.length_cons, ih]
    by_cases hfirst : name = first.name
    · subst hfirst
      simp [hne]
      omega
    · by_cases hsecond : name = second.name
      · subst hsecond
        simp [Ne.symm hne]
        omega
      · simp [hfirst, hsecond]
        omega

/-- The loop takes the two elements after each other. -/
theorem buildAll_two {b : Building} :
    buildAll [first, second] current = some b ↔
      ∃ b₁, buildOne (lastPosition current) ⟨current, -1, 0⟩ first = some b₁ ∧
        buildOne (lastPosition current) b₁ second = some b := by
  simp [buildAll, Option.bind_eq_some_iff]

theorem inRange_start (current : List String) : Building.InRange ⟨current, -1, 0⟩ :=
  ⟨Int.le_refl _, Int.le_refl _⟩

/-- No element comes twice in what is built. -/
theorem nodup_buildAll (hne : first.name ≠ second.name) (hnodup : current.Nodup) {b : Building}
    (h : buildAll [first, second] current = some b) : b.pipeline.Nodup := by
  obtain ⟨b₁, hfirst, hsecond⟩ := buildAll_two.mp h
  obtain ⟨hnodup₁, hmem⟩ := buildOne_nodup (inRange_start current) hfirst hnodup lastPosition_none
  refine (buildOne_nodup ((inRange_start current).step hfirst) hsecond hnodup₁ ?_).1
  intro hnone hname
  rcases hmem _ hname with heq | hname
  · exact hne heq.symm
  · exact lastPosition_none hnone hname

theorem buildSpec_of_nodup {b : Building} {spec : List PipelineStatus}
    (h : buildAll spec current = some b) (hnodup : b.pipeline.Nodup) :
    buildSpec spec current = .returns b.pipeline := by
  have hcheck : checkDuplicates b.pipeline = false := by
    rw [← Bool.not_eq_true, checkDuplicates, repeats_iff, not_not]
    exact ⟨hnodup, fun _ _ => List.not_mem_nil⟩
  rw [buildSpec, h]
  dsimp only
  rw [hcheck]
  rfl

/-- What is built right is as long as it should be, so no step has lost an element. -/
theorem editable_of_editsOwn (hne : first.name ≠ second.name) (hnodup : current.Nodup)
    (h : EditsOwn [first, second] current (buildSpec [first, second] current)) :
    Editable [first, second] current := by
  cases hbuild : buildAll [first, second] current with
  | none =>
    apply absurd _ h.indexes
    rw [buildSpec, hbuild]
  | some b =>
    have hreturns := buildSpec_of_nodup hbuild (nodup_buildAll hne hnodup hbuild)
    have hothers := congrArg List.length (h.others _ hreturns)
    have hown := h.own _ hreturns
    obtain ⟨b₁, hfirst, hsecond⟩ := buildAll_two.mp hbuild
    have hrange := (inRange_start current).step hfirst
    obtain ⟨hle₁, hexact₁⟩ := buildOne_length (inRange_start current) hfirst
    obtain ⟨hle₂, hexact₂⟩ := buildOne_length hrange hsecond
    have hlength := length_eq_counts hne b.pipeline
    have hcurrent := length_eq_counts hne current
    rw [hothers, hown first List.mem_cons_self,
      hown second (List.mem_cons_of_mem _ List.mem_cons_self)] at hlength
    rw [isSome_lastPosition hnodup] at hle₁ hexact₁ hle₂ hexact₂
    dsimp only at hle₁ hexact₁
    obtain ⟨hfront₁, -⟩ := hexact₁ (by omega)
    obtain ⟨hfront₂, hbehind₂⟩ := hexact₂ (by omega)
    refine ⟨?_, ?_, ?_⟩
    · intro m hm hdisabled hmem
      rw [head_iff_lastPosition hnodup]
      cases hposition : lastPosition current m.name with
      | none => exact absurd hmem (lastPosition_none hposition)
      | some loc =>
        rcases List.mem_cons.mp hm with rfl | hm
        · have hzero := hfront₁ loc hposition hdisabled
          congr 1
          omega
        · obtain rfl := List.mem_singleton.mp hm
          have hzero := hfront₂ loc hposition hdisabled
          have hinserts := hrange.inserts
          congr 1
          omega
    · intro hhead henabled
      by_contra hmissing
      have hposition := (head_iff_lastPosition hnodup _).mp hhead
      apply hbehind₂ (lastPosition_of_not_mem hmissing) henabled
      exact lastMatched_of_some hposition hfirst
    · intro hdisabled hmem henabled
      by_contra hmissing
      cases hposition : lastPosition current second.name with
      | none => exact absurd hmem (lastPosition_none hposition)
      | some loc =>
        have hzero := hfront₂ loc hposition hdisabled
        have hinserts := inserts_of_none (lastPosition_of_not_mem hmissing) henabled hfirst
        dsimp only at hinserts
        omega

/-- The first step of a pipeline that can be edited: with the first element where the second step
expects it. -/
theorem buildOne_first (hnodup : current.Nodup) (hedit : Editable [first, second] current) :
    ∃ b, buildOne (lastPosition current) ⟨current, -1, 0⟩ first = some b ∧
      Edited first current b.pipeline ∧
      (current.head? ≠ some first.name →
        b.lastMatched = -1 ∨ (1 ≤ b.lastMatched ∧ b.lastMatched ≤ b.pipeline.length)) ∧
      (second.enabled = false → current.head? = some second.name → first.name ≠ second.name →
        b.pipeline = current ∧ b.inserts = 0) := by
  obtain ⟨hfront, -, hpresent⟩ := hedit
  cases hposition : lastPosition current first.name with
  | none =>
    have hmissing := lastPosition_none hposition
    cases henabled : first.enabled with
    | false =>
      refine ⟨⟨current, -1, 0⟩, ?_, edited_of_count ?_, fun _ => .inl rfl,
        fun _ _ _ => ⟨rfl, rfl⟩⟩
      · simp [buildOne, hposition, henabled]
      · rw [List.count_eq_zero_of_not_mem hmissing, henabled, Bool.toNat_false]
    | true =>
      obtain ⟨before, after, hsplit, hinsert⟩ :=
        insertBehind_splits current first.name (.inl rfl)
      refine ⟨⟨before ++ first.name :: after, -1, 1⟩, ?_, ?_, fun _ => .inl rfl, ?_⟩
      · simp [buildOne, hposition, henabled, hinsert]
      · rw [hsplit] at hmissing ⊢
        exact edited_of_inserted henabled hmissing
      · -- the second element is not taken out when the first one is missing
        intro hdisabled hhead _
        exact absurd (hpresent hdisabled (List.mem_of_mem_head? hhead) henabled) hmissing
  | some loc =>
    have hat := (lastPosition_some hposition).1
    have hmem := List.mem_of_getElem? hat
    cases henabled : first.enabled with
    | false =>
      have hhead := hfront first List.mem_cons_self henabled hmem
      obtain ⟨rest, rfl⟩ := List.head?_eq_some_iff.mp hhead
      have hzero := (head_iff_lastPosition hnodup _).mp hhead
      refine ⟨⟨rest, 0, 0⟩, ?_, ?_, fun hne => absurd hhead hne, ?_⟩
      · simp [buildOne, hzero, henabled, removePosition_head]
      · exact edited_of_removed henabled (List.nodup_cons.mp hnodup).1
      · intro _ hsecond hne
        exact absurd (Option.some.inj (hhead.symm.trans hsecond)) hne
    | true =>
      refine ⟨⟨current, loc, 0⟩, ?_, edited_of_count ?_, ?_, fun _ _ _ => ⟨rfl, rfl⟩⟩
      · simp [buildOne, hposition, henabled]
      · rw [List.count_eq_one_of_mem hnodup hmem, henabled, Bool.toNat_true]
      · intro hhead
        right
        have hlt := (List.getElem?_eq_some_iff.mp hat).1
        have hne : loc ≠ 0 := by
          rintro rfl
          exact hhead ((head_iff_lastPosition hnodup _).mpr hposition)
        dsimp only
        omega

/-- The second step. -/
theorem buildOne_second (hne : first.name ≠ second.name) (hnodup : current.Nodup)
    (hedit : Editable [first, second] current) {b₁ : Building}
    (hedited : Edited first current b₁.pipeline)
    (hlast : current.head? ≠ some first.name →
      b₁.lastMatched = -1 ∨ (1 ≤ b₁.lastMatched ∧ b₁.lastMatched ≤ b₁.pipeline.length))
    (hhead : second.enabled = false → current.head? = some second.name →
      first.name ≠ second.name → b₁.pipeline = current ∧ b₁.inserts = 0) :
    ∃ b, buildOne (lastPosition current) b₁ second = some b ∧
      Edited second b₁.pipeline b.pipeline := by
  obtain ⟨hfront, hmissing₂, -⟩ := hedit
  have hcount : b₁.pipeline.count second.name = current.count second.name :=
    hedited.count (Ne.symm hne)
  cases hposition : lastPosition current second.name with
  | none =>
    have hmissing := lastPosition_none hposition
    rw [List.count_eq_zero_of_not_mem hmissing] at hcount
    cases henabled : second.enabled with
    | false =>
      refine ⟨b₁, by simp [buildOne, hposition, henabled], edited_of_count ?_⟩
      rw [hcount, henabled, Bool.toNat_false]
    | true =>
      have hfirst : current.head? ≠ some first.name :=
        fun h => hmissing (hmissing₂ h henabled)
      obtain ⟨before, after, hsplit, hinsert⟩ :=
        insertBehind_splits _ second.name (hlast hfirst)
      refine ⟨⟨before ++ second.name :: after, b₁.lastMatched, b₁.inserts + 1⟩, ?_, ?_⟩
      · simp [buildOne, hposition, henabled, hinsert]
      · have hnot := List.count_eq_zero.mp hcount
        rw [hsplit] at hnot ⊢
        exact edited_of_inserted henabled hnot
  | some loc =>
    have hmem := List.mem_of_getElem? (lastPosition_some hposition).1
    rw [List.count_eq_one_of_mem hnodup hmem] at hcount
    cases henabled : second.enabled with
    | false =>
      have hfront₂ := hfront second (List.mem_cons_of_mem _ List.mem_cons_self) henabled hmem
      obtain ⟨hpipeline, hinserts⟩ := hhead henabled hfront₂ hne
      have hzero := (head_iff_lastPosition hnodup _).mp hfront₂
      obtain ⟨rest, rfl⟩ := List.head?_eq_some_iff.mp hfront₂
      refine ⟨⟨rest, 0, 0⟩, ?_, ?_⟩
      · simp [buildOne, hzero, henabled, hpipeline, hinserts, removePosition_head]
      · rw [hpipeline]
        exact edited_of_removed henabled (List.nodup_cons.mp hnodup).1
    | true =>
      refine ⟨{ b₁ with lastMatched := loc + b₁.inserts }, ?_, edited_of_count ?_⟩
      · simp [buildOne, hposition, henabled]
      · rw [hcount, henabled, Bool.toNat_true]

theorem editsOwn_of_editable (hne : first.name ≠ second.name) (hnodup : current.Nodup)
    (hedit : Editable [first, second] current) :
    EditsOwn [first, second] current (buildSpec [first, second] current) := by
  obtain ⟨b₁, hfirst, hedited₁, hlast, hhead⟩ := buildOne_first hnodup hedit
  obtain ⟨b, hsecond, hedited₂⟩ := buildOne_second hne hnodup hedit hedited₁ hlast hhead
  have hbuild := buildAll_two.mpr ⟨b₁, hfirst, hsecond⟩
  rw [buildSpec_of_nodup hbuild (nodup_buildAll hne hnodup hbuild)]
  constructor
  · exact fun h => nomatch h
  · rintro _ ⟨⟩
    rw [hedited₂.others _ (by simp), hedited₁.others _ (by simp)]
  · rintro _ ⟨⟩ m hm
    rcases List.mem_cons.mp hm with rfl | hm
    · rw [hedited₂.count hne, hedited₁.own]
    · obtain rfl := List.mem_singleton.mp hm
      exact hedited₂.own

end Two

/-- The spec of a signal has two elements. -/
theorem PipelineSpecs.two (specs : PipelineSpecs) {signal : String} {spec : List PipelineStatus}
    (h : specs.spec signal = some spec) :
    ∃ first second, spec = [first, second] ∧ first.name ≠ second.name := by
  have hsplit : ∀ (l : List PipelineStatus) (x y : String), l.map PipelineStatus.name = [x, y] →
      x ≠ y → ∃ first second, l = [first, second] ∧ first.name ≠ second.name := by
    intro l x y hl hxy
    obtain ⟨first, rest, rfl, rfl, hrest⟩ := List.map_eq_cons_iff.mp hl
    obtain ⟨second, rest, rfl, rfl, hnil⟩ := List.map_eq_cons_iff.mp hrest
    rw [List.map_eq_nil_iff.mp hnil]
    exact ⟨first, second, rfl, hxy⟩
  rw [PipelineSpecs.spec] at h
  split_ifs at h
  · obtain rfl := Option.some.inj h
    exact hsplit _ _ _ specs.metrics_names (by decide)
  · obtain rfl := Option.some.inj h
    exact hsplit _ _ _ specs.traces_names (by decide)

/-- For every setting and every pipeline without duplicates `buildPipeline` edits its own elements
alone if and only if the pipeline is one that it can edit. -/
theorem buildPipeline_editsOwn_iff (specs : PipelineSpecs) (signal : String)
    (current : List String) (hnodup : current.Nodup) :
    EditsOwn ((specs.spec signal).getD []) current (buildPipeline specs signal current) ↔
      Editable ((specs.spec signal).getD []) current := by
  rw [buildPipeline]
  cases hspec : specs.spec signal with
  | none =>
    refine iff_of_true ?_ trivial
    constructor
    · exact fun h => nomatch h
    · exact fun _ h => nomatch h
    · exact fun _ h => nomatch h
  | some spec =>
    obtain ⟨first, second, rfl, hne⟩ := specs.two hspec
    exact ⟨editable_of_editsOwn hne hnodup, editsOwn_of_editable hne hnodup⟩

/-- The filter is enabled, stands behind another processor, and `batch` is missing. -/
theorem buildPipeline_editsOwn_filter :
    EditsOwn [⟨"filter", true⟩, ⟨"batch", true⟩] ["memory_limiter", "filter"]
      (buildPipeline (updatePipelineSpec initialSpecs "metrics" "filter" true) "metrics"
        ["memory_limiter", "filter"]) :=
  (buildPipeline_editsOwn_iff (updatePipelineSpec initialSpecs "metrics" "filter" true) "metrics"
    ["memory_limiter", "filter"] (by decide)).mpr (by
      refine ⟨?_, ?_, ?_⟩
      · decide
      · decide
      · decide)

/-- Tail sampling stays disabled, and is taken out with the processor before it. -/
theorem buildPipeline_drops_neighbour :
    buildPipeline initialSpecs "traces" ["memory_limiter", "signoz_tail_sampling", "batch"] =
        .returns ["batch"] ∧
      ¬EditsOwn initialSpecs.traces ["memory_limiter", "signoz_tail_sampling", "batch"]
        (buildPipeline initialSpecs "traces"
          ["memory_limiter", "signoz_tail_sampling", "batch"]) := by
  have hbuild : buildPipeline initialSpecs "traces"
      ["memory_limiter", "signoz_tail_sampling", "batch"] = .returns ["batch"] := by decide
  refine ⟨hbuild, ?_⟩
  intro h
  have hothers := h.others _ hbuild
  exact absurd hothers (by decide)

end Signoz.Opamp
