import Signoz.Lib.CharLists
import Signoz.LogPipelines.NilGuards

/-!
# When the nil check of a field path is exact

On the records that fit a path, its check holds when the path leads to something, and fails
otherwise, if each key of the path is kept as it is. A key that is altered leads past what the path
leads to. Where members are lost, what stands before them is enough.
-/

namespace Signoz.LogPipelines

open scoped Lib.CharLists

variable {F : Type} {literal : List Char → String}

/-! ## Walks -/

variable {value : LogValue}

theorem walkFits_append {before after : List Access} :
    WalkFits literal (before ++ after) value ↔
      WalkFits literal before value ∧
        ∀ value', walkAccesses literal before value = some value' →
          WalkFits literal after value' := by
  induction before generalizing value with
  | nil => simp [WalkFits, walkAccesses]
  | cons access rest ih =>
    rw [List.cons_append, WalkFits, WalkFits, walkAccesses, and_assoc]
    apply and_congr_right
    intro _
    constructor
    · intro h
      refine ⟨fun value' hvalue' => (ih.mp (h value' hvalue')).1, ?_⟩
      intro last hlast
      obtain ⟨value', hvalue', hrest⟩ := Option.bind_eq_some_iff.mp hlast
      exact (ih.mp (h value' hvalue')).2 last hrest
    · rintro ⟨hfits, hafter⟩ value' hvalue'
      refine ih.mpr ⟨hfits value' hvalue', fun last hlast => hafter last ?_⟩
      rw [hvalue']
      exact hlast

variable {accesses : List Access}

/-- Behind `nil` there is `nil` or nothing. -/
theorem eq_nil_of_walkAccesses_nil (h : walkAccesses literal accesses .nil = some value) :
   value = .nil := by
  induction accesses with
  | nil => exact (Option.some.inj h).symm
  | cons access rest ih =>
    cases access with
    | member optional name =>
      cases optional with
      | true => exact ih h
      | false => cases h
    | key quote written => cases h
    | index n => cases h

theorem walkFits_nil (accesses : List Access) : WalkFits literal accesses .nil := by
  induction accesses with
  | nil => trivial
  | cons access rest ih =>
    cases access with
    | member optional name =>
      refine ⟨.inl rfl, fun value hvalue => ?_⟩
      have hstep : walkAccesses literal [.member optional name] .nil = some value := by
        rw [walkAccesses, hvalue]
        rfl
      rw [eq_nil_of_walkAccesses_nil hstep]
      exact ih
    | key quote written => exact ⟨.inl rfl, fun _ hvalue => by cases hvalue⟩
    | index n => exact ⟨.inl rfl, fun _ hvalue => by cases hvalue⟩

/-- Optional members that fit have a value. -/
theorem exists_walk_members {members : List String}
    (h : WalkFits literal (members.map (Access.member true)) value) :
    ∃ value', walkAccesses literal (members.map (Access.member true)) value = some value' := by
  induction members generalizing value with
  | nil => exact ⟨value, rfl⟩
  | cons name members ih =>
    obtain ⟨hsuits, hrest⟩ := h
    rcases hsuits with rfl | ⟨fields, rfl⟩
    · exact ⟨.nil, walkAccesses_nil (name :: members)⟩
    · exact ih (hrest _ rfl)

/-- The step without its `?`. -/
def Access.plain : Access → Access
  | .member _ name => .member false name
  | access => access

theorem FieldExpr.accesses_false (e : FieldExpr) :
    e.accesses false = (e.accesses true).map Access.plain := by
  have hmembers : ∀ members : List String, members.map (Access.member false) =
      (members.map (Access.member true)).map Access.plain := by
    intro members
    rw [List.map_map]
    rfl
  induction e with
  | names root members => exact hmembers members
  | bracket target operand members ih =>
    rw [FieldExpr.accesses, FieldExpr.accesses, ih, List.map_append, List.map_cons,
      hmembers members]
    cases operand with
    | key quote written => rfl
    | index n => rfl

/-- A walk to something passes through something, and does not need its `?`. -/
theorem walkAccesses_plain {value last : LogValue}
    (h : walkAccesses literal accesses value = some last) (hlast : last.isNil = false) :
    walkAccesses literal (accesses.map Access.plain) value = some last := by
  induction accesses generalizing value with
  | nil => exact h
  | cons access rest ih =>
    have hvalue : value ≠ .nil := by
      rintro rfl
      rw [eq_nil_of_walkAccesses_nil h] at hlast
      cases hlast
    obtain ⟨value', hvalue', hrest⟩ := Option.bind_eq_some_iff.mp h
    have hplain : access.plain.value literal value = some value' := by
      cases access with
      | member optional name =>
        cases value with
        | nil => exact absurd rfl hvalue
        | map fields =>
          rw [← hvalue']
          cases optional with
          | true => rfl
          | false => rfl
        | leaf => cases optional with
          | true => cases hvalue'
          | false => cases hvalue'
        | array items => cases optional with
          | true => cases hvalue'
          | false => cases hvalue'
      | key quote written => exact hvalue'
      | index n => exact hvalue'
    rw [List.map_cons, walkAccesses, hplain, Option.bind_some, ih hrest]

/-! ## The check of a path whose keys are kept -/

section Kept

variable {record : LogRecord}

theorem not_nonNil_of_walk {e : FieldExpr} {access : Access} {before after : List Access}
    (hsplit : e.accesses true = before ++ access :: after)
    (hstop : ∀ value, walkAccesses literal before (record e.root) = some value →
      access.value literal value = none) :
    ¬e.meant.NonNil literal record := by
  rintro ⟨last, hlast, -⟩
  rw [FieldPath.value, FieldExpr.meant, hsplit, walkAccesses_append] at hlast
  obtain ⟨value, hvalue, hrest⟩ := Option.bind_eq_some_iff.mp hlast
  rw [walkAccesses, hstop value hvalue] at hrest
  cases hrest

theorem Bracket.access_nil (operand : Bracket) : operand.access.value literal .nil = none := by
  cases operand with
  | key quote written => rfl
  | index n => rfl

/-- A bracket behind something: the comparison of the whole path is exact. -/
theorem FieldExpr.holds_fullCheck {target : FieldExpr} {operand : Bracket} {members : List String}
    (hkept : ∀ quote written, operand = .key quote written → KeptKey written members)
    (hfits : (FieldExpr.bracket target operand members).Fits literal record)
    (htarget : target.meant.NonNil literal record) :
    ∃ b, (target.fullCheck operand members).holds literal record = some b ∧
      (b = true ↔ (FieldExpr.bracket target operand members).meant.NonNil literal record) := by
  obtain ⟨value, hvalue, hsome⟩ := htarget
  have hplain : walkAccesses literal (target.accesses false) (record target.root) = some value := by
    rw [FieldExpr.accesses_false]
    exact walkAccesses_plain hvalue hsome
  have hmeant : (FieldExpr.bracket target operand members).meant.value literal record =
      walkAccesses literal (operand.access :: members.map (Access.member true)) value := by
    change walkAccesses literal (target.accesses true ++ _) (record target.root) = _
    rw [walkAccesses_append]
    exact congrArg (Option.bind · _) hvalue
  have hwhole : (FieldPath.mk target.root (target.accesses false ++ operand.access ::
      members.map (Access.member true))).value literal record =
        walkAccesses literal (operand.access :: members.map (Access.member true)) value := by
    rw [FieldPath.value, walkAccesses_append, hplain, Option.bind_some]
  obtain ⟨hsuits, hmembers⟩ := (walkFits_append.mp hfits).2 value hvalue
  rw [FieldPath.NonNil, hmeant]
  cases operand with
  | key quote written =>
    rcases hsuits with rfl | ⟨fields, rfl⟩
    · cases hsome
    · obtain ⟨last, hlast⟩ := exists_walk_members (hmembers _ rfl)
      have hpath : walkAccesses literal (.key quote written ::
          members.map (Access.member true)) (.map fields) = some last := hlast
      have hnames : (if ']' ∈ written then [] else members) = members := by
        rcases hkept quote written rfl with hnone | ⟨-, -, hempty⟩
        · exact if_neg hnone
        · rw [hempty, ite_self]
      have hkey : cutKey written = written := by
        rcases hkept quote written rfl with hnone | ⟨-, hsame, -⟩
        · exact cutKey_of_not_mem hnone
        · exact hsame
      refine ⟨!last.isNil, ?_, ?_⟩
      · rw [FieldExpr.fullCheck, hnames, hkey, Guard.holds]
        change Option.map _ ((FieldPath.mk target.root (target.accesses false ++
          (Bracket.key quote written).access :: _)).value literal record) = _
        rw [hwhole]
        change Option.map _ (walkAccesses literal (.key quote written :: _) _) = _
        rw [hpath]
        rfl
      · change _ ↔ ∃ value', walkAccesses literal (.key quote written :: _) _ = some value' ∧ _
        rw [hpath]
        simp
  | index n =>
    rcases hsuits with rfl | ⟨items, rfl⟩
    · cases hsome
    · have hlonger : (Guard.longer target.path n).holds literal record =
          some (decide (n < items.length)) := by
        have harray : target.path.value literal record = some (.array items) := hplain
        rw [Guard.holds, harray]
        rfl
      change ∃ b, (Guard.both (.longer target.path n) (.notNil ⟨target.root,
        target.accesses false ++ (Bracket.index n).access :: _⟩)).holds literal record =
          some b ∧ _
      rw [Guard.holds, hlonger, Option.bind_some]
      by_cases hshort : n < items.length
      · obtain ⟨last, hlast⟩ := exists_walk_members (hmembers _ (List.getElem?_eq_getElem hshort))
        have hpath : walkAccesses literal ((Bracket.index n).access ::
            members.map (Access.member true)) (.array items) = some last := by
          change Option.bind items[n]? _ = _
          rw [List.getElem?_eq_getElem hshort]
          exact hlast
        refine ⟨!last.isNil, ?_, ?_⟩
        · rw [if_pos (decide_eq_true hshort), Guard.holds, hwhole, hpath]
          rfl
        · rw [hpath]
          simp
      · refine ⟨false, ?_, ?_⟩
        · rw [if_neg (by simpa using hshort)]
        · -- an index past the end is an error
          have hnone : walkAccesses literal ((Bracket.index n).access ::
              members.map (Access.member true)) (.array items) = none := by
            change Option.bind items[n]? _ = _
            rw [List.getElem?_eq_none (Nat.not_lt.mp hshort)]
            rfl
          rw [hnone]
          simp

/-- A check of kept keys is exact on every record that fits. -/
theorem FieldExpr.holds_check {e : FieldExpr} (hkept : ∀ key ∈ e.keys, KeptKey key.1 key.2)
    (hmaps : record.HasMaps) (hfits : e.Fits literal record) :
    ∃ b, e.check.holds literal record = some b ∧ (b = true ↔ e.meant.NonNil literal record) := by
  induction e with
  | names root members =>
    obtain ⟨last, hlast⟩ := exists_walk_members hfits
    have hvalue : (FieldPath.mk root (members.map (Access.member true))).value literal record =
        some last := hlast
    refine ⟨!last.isNil, ?_, ?_⟩
    · rw [FieldExpr.check, Guard.holds, hvalue]
      rfl
    · rw [FieldPath.NonNil, FieldExpr.meant, FieldExpr.accesses]
      change _ ↔ ∃ value, (FieldPath.mk root _).value literal record = some value ∧ _
      rw [hvalue]
      simp
  | bracket target operand members ih =>
    have hkey : ∀ quote written, operand = .key quote written → KeptKey written members := by
      rintro quote written rfl
      exact hkept _ List.mem_cons_self
    have hrest : ∀ key ∈ target.keys, KeptKey key.1 key.2 := by
      intro key hmem
      cases operand with
      | key quote written => exact hkept key (List.mem_cons_of_mem _ hmem)
      | index n => exact hkept key hmem
    rw [FieldExpr.check]
    by_cases hcontainer : target.IsContainer
    · rw [if_pos hcontainer]
      apply FieldExpr.holds_fullCheck hkey hfits
      rcases hcontainer with rfl | rfl
      · obtain ⟨fields, hfields⟩ := hmaps "attributes" (by simp)
        exact ⟨.map fields, congrArg some hfields, rfl⟩
      · obtain ⟨fields, hfields⟩ := hmaps "resource" (by simp)
        exact ⟨.map fields, congrArg some hfields, rfl⟩
    · rw [if_neg hcontainer]
      obtain ⟨b, hb, hiff⟩ := ih hrest (walkFits_append.mp hfits).1
      rw [Guard.holds, hb, Option.bind_some]
      cases b with
      | true => exact FieldExpr.holds_fullCheck hkey hfits (hiff.mp rfl)
      | false =>
        refine ⟨false, rfl, ?_⟩
        -- what stands before the bracket is `nil`, or has no value
        have hnil : ¬target.meant.NonNil literal record := fun h =>
          Bool.false_ne_true (hiff.mpr h)
        have hsplit : (FieldExpr.bracket target operand members).accesses true =
            target.accesses true ++ operand.access :: members.map (Access.member true) := rfl
        constructor
        · exact fun h => absurd h Bool.false_ne_true
        · intro h
          refine absurd h (not_nonNil_of_walk hsplit fun value hvalue => ?_)
          cases hisNil : value.isNil with
          | false => exact absurd ⟨value, hvalue, hisNil⟩ hnil
          | true =>
            cases value with
            | nil => exact operand.access_nil
            | leaf => cases hisNil
            | map fields => cases hisNil
            | array items => cases hisNil

end Kept

/-! ## Records along a path -/

/-- The value that has the given one behind the steps, and nothing else. -/
def along (literal : List Char → String) : List Access → LogValue → LogValue
  | [], value => value
  | .member _ name :: rest, value =>
    .map fun field => if field = name then along literal rest value else .nil
  | .key _ written :: rest, value =>
    .map fun field => if field = literal written then along literal rest value else .nil
  | .index n :: rest, value => .array (List.replicate n .nil ++ [along literal rest value])

theorem Access.value_along (access : Access) (rest : List Access) (value : LogValue) :
    access.value literal (along literal (access :: rest) value) =
      some (along literal rest value) := by
  cases access with
  | member optional name => cases optional with
    | true => simp [along, Access.value]
    | false => simp [along, Access.value]
  | key quote written => simp [along, Access.value]
  | index n => simp [along, Access.value]

theorem Access.suits_along (access : Access) (rest : List Access) (value : LogValue) :
    access.Suits (along literal (access :: rest) value) := by
  cases access with
  | member optional name => exact .inr ⟨_, rfl⟩
  | key quote written => exact .inr ⟨_, rfl⟩
  | index n => exact .inr ⟨_, rfl⟩

theorem along_cons_isNil (literal : List Char → String) (access : Access) (rest : List Access)
    (value : LogValue) : (along literal (access :: rest) value).isNil = false := by
  cases access with
  | member optional name => rfl
  | key quote written => rfl
  | index n => rfl

/-- Part of the way leads to the value along the rest. -/
theorem walk_along (literal : List Char → String) (before after : List Access)
    (value : LogValue) :
    walkAccesses literal before (along literal (before ++ after) value) =
      some (along literal after value) := by
  induction before with
  | nil => rfl
  | cons access before ih =>
    rw [List.cons_append, walkAccesses, Access.value_along, Option.bind_some, ih]

theorem walkFits_along (accesses : List Access) (value : LogValue) :
    WalkFits literal accesses (along literal accesses value) := by
  induction accesses with
  | nil => trivial
  | cons access rest ih =>
    refine ⟨access.suits_along rest value, fun value' hvalue' => ?_⟩
    rw [Access.value_along] at hvalue'
    rwa [← Option.some.inj hvalue']

/-- The record with one value along a path. -/
def recordAlong (literal : List Char → String) (root : String) (accesses : List Access)
    (value : LogValue) : LogRecord := fun name =>
  if name = root then along literal accesses value else .map fun _ => .nil

theorem recordAlong_root (root : String) (accesses : List Access) (value : LogValue) :
    recordAlong literal root accesses value root = along literal accesses value :=
  if_pos rfl

/-- The path takes `attributes` or `resource` for an array. -/
def FieldExpr.IndexesMap (e : FieldExpr) : Prop :=
  e.root ∈ ["attributes", "resource"] ∧ ∃ n, (e.accesses true).head? = some (.index n)

theorem recordAlong_hasMaps {e : FieldExpr} (hindexes : ¬e.IndexesMap) (hne : accesses ≠ [])
    (hfront : accesses <+: e.accesses true) (value : LogValue) :
    (recordAlong literal e.root accesses value).HasMaps := by
  intro name hname
  rw [recordAlong]
  split_ifs with hroot
  · obtain ⟨access, rest, rfl⟩ := List.exists_cons_of_ne_nil hne
    cases access with
    | member optional name => exact ⟨_, rfl⟩
    | key quote written => exact ⟨_, rfl⟩
    | index n =>
      obtain ⟨more, hmore⟩ := hfront
      refine absurd ⟨hroot ▸ hname, n, ?_⟩ hindexes
      rw [← hmore]
      rfl
  · exact ⟨_, rfl⟩

/-- No record fits a path that takes a map for an array. -/
theorem FieldExpr.IndexesMap.not_fits {e : FieldExpr} (h : e.IndexesMap) {record : LogRecord}
    (hmaps : record.HasMaps) : ¬e.Fits literal record := by
  obtain ⟨hroot, n, hhead⟩ := h
  obtain ⟨rest, hrest⟩ : ∃ rest, e.accesses true = .index n :: rest := by
    cases haccesses : e.accesses true with
    | nil =>
      rw [haccesses] at hhead
      cases hhead
    | cons access rest =>
      rw [haccesses] at hhead
      exact ⟨rest, by rw [Option.some.inj hhead]⟩
  obtain ⟨fields, hfields⟩ := hmaps e.root hroot
  rw [FieldExpr.Fits, hrest, hfields]
  rintro ⟨hsuits, -⟩
  rcases hsuits with hnil | ⟨items, hitems⟩
  · cases hnil
  · cases hitems

/-! ## What stands before a bracket -/

section Targets

variable {record : LogRecord} {e target : FieldExpr} {members : List String}

theorem FieldExpr.targets_trans {operand : Bracket}
    (h : FieldExpr.bracket target operand members ∈ e.targets) : target ∈ e.targets := by
  induction e with
  | names root names =>
    rw [FieldExpr.targets, List.mem_singleton] at h
    cases h
  | bracket target' operand' members' ih =>
    rcases List.mem_cons.mp h with heq | hmem
    · cases heq
      exact List.mem_cons_of_mem _ target.mem_targets_self
    · exact List.mem_cons_of_mem _ (ih hmem)

theorem FieldExpr.root_of_mem_targets (h : target ∈ e.targets) :
    target.root = e.root := by
  induction e with
  | names root names => rw [List.mem_singleton.mp h]
  | bracket target' operand members ih =>
    rcases List.mem_cons.mp h with rfl | hmem
    · rfl
    · exact ih hmem

theorem FieldExpr.accesses_of_mem_targets (h : target ∈ e.targets) :
    target.accesses true <+: e.accesses true := by
  induction e with
  | names root names =>
    rw [List.mem_singleton.mp h]
  | bracket target' operand members ih =>
    rcases List.mem_cons.mp h with rfl | hmem
    · exact List.prefix_rfl
    · exact (ih hmem).trans (List.prefix_append _ _)

/-- A path is the whole one, or another bracket follows. -/
theorem FieldExpr.eq_or_bracket (h : target ∈ e.targets) :
    target = e ∨ ∃ operand members, FieldExpr.bracket target operand members ∈ e.targets := by
  induction e with
  | names root names => exact .inl (List.mem_singleton.mp h)
  | bracket target' operand members ih =>
    rcases List.mem_cons.mp h with rfl | hmem
    · exact .inl rfl
    · rcases ih hmem with rfl | ⟨operand', members', hmem'⟩
      · exact .inr ⟨operand, members, List.mem_cons_self⟩
      · exact .inr ⟨operand', members', List.mem_cons_of_mem _ hmem'⟩

theorem FieldExpr.not_isContainer_bracket {target : FieldExpr} {operand : Bracket} :
   ¬(FieldExpr.bracket target operand members).IsContainer := by
  rintro (h | h)
  · cases h
  · cases h

/-- When the check of what stands before a bracket does not hold, the whole check ends there. -/
theorem FieldExpr.holds_of_target (h : target ∈ e.targets) (hcontainer : ¬target.IsContainer)
    (hfails : target.check.holds literal record ≠ some true) :
    e.check.holds literal record = target.check.holds literal record := by
  induction e with
  | names root names => rw [List.mem_singleton.mp h]
  | bracket target' operand members ih =>
    rcases List.mem_cons.mp h with rfl | hmem
    · rfl
    · have hsame := ih hmem
      have hnot : ¬target'.IsContainer := by
        rintro (rfl | rfl)
        · rw [List.mem_singleton.mp hmem] at hcontainer
          exact hcontainer (.inl rfl)
        · rw [List.mem_singleton.mp hmem] at hcontainer
          exact hcontainer (.inr rfl)
      rw [FieldExpr.check, if_neg hnot, Guard.holds, hsame]
      cases hholds : target.check.holds literal record with
      | none => rfl
      | some holds =>
        cases holds with
        | true => exact absurd hholds hfails
        | false => rfl

theorem FieldExpr.mem_keys_of_targets {quote : Char} {written : List Char}
    (h : FieldExpr.bracket target (.key quote written) members ∈ e.targets) :
    (written, members) ∈ e.keys := by
  induction e with
  | names root names =>
    rw [FieldExpr.targets, List.mem_singleton] at h
    cases h
  | bracket target' operand members' ih =>
    rcases List.mem_cons.mp h with heq | hmem
    · cases heq
      exact List.mem_cons_self
    · cases operand with
      | key quote' written' => exact List.mem_cons_of_mem _ (ih hmem)
      | index n => exact ih hmem

/-- Of the keys that are not kept, one is first. -/
theorem FieldExpr.exists_first_key {e : FieldExpr}
    (h : ¬∀ key ∈ e.keys, KeptKey key.1 key.2) :
    ∃ target quote written members,
      FieldExpr.bracket target (.key quote written) members ∈ e.targets ∧
        (∀ key ∈ target.keys, KeptKey key.1 key.2) ∧ ¬KeptKey written members := by
  induction e with
  | names root names => exact absurd (fun key hkey => absurd hkey List.not_mem_nil) h
  | bracket target operand members ih =>
    by_cases htarget : ∀ key ∈ target.keys, KeptKey key.1 key.2
    · cases operand with
      | key quote written =>
        refine ⟨target, quote, written, members, List.mem_cons_self, htarget, fun hkept => h ?_⟩
        exact List.forall_mem_cons.mpr ⟨hkept, htarget⟩
      | index n => exact absurd htarget h
    · obtain ⟨target', quote, written, members', hmem, hkeys, hnot⟩ := ih htarget
      exact ⟨target', quote, written, members', List.mem_cons_of_mem _ hmem, hkeys, hnot⟩

/-- Behind a target that is something, the check is the comparison of the whole path. -/
theorem FieldExpr.holds_bracket {target : FieldExpr} (operand : Bracket) (members : List String)
    (hkept : ∀ key ∈ target.keys, KeptKey key.1 key.2) (hmaps : record.HasMaps)
    (hfits : target.Fits literal record) (htarget : target.meant.NonNil literal record) :
    (FieldExpr.bracket target operand members).check.holds literal record =
      (target.fullCheck operand members).holds literal record := by
  rw [FieldExpr.check]
  split_ifs with hcontainer
  · rfl
  · obtain ⟨b, hb, hiff⟩ := FieldExpr.holds_check hkept hmaps hfits
    rw [Guard.holds, hb, hiff.mpr htarget, Option.bind_some, if_pos rfl]

end Targets

/-! ## Keys that are not kept -/

section Altered

variable {e target : FieldExpr} {quote : Char} {written : List Char} {members : List String}
  {value : LogValue}

theorem FieldExpr.fits_recordAlong {e : FieldExpr} {accesses after : List Access}
    (hsplit : e.accesses true = accesses ++ after) (hafter : WalkFits literal after value) :
    e.Fits literal (recordAlong literal e.root accesses value) := by
  rw [FieldExpr.Fits, recordAlong_root, hsplit, walkFits_append]
  refine ⟨walkFits_along accesses value, fun value' hvalue' => ?_⟩
  have hwalk := walk_along literal accesses [] value
  rw [List.append_nil, hvalue'] at hwalk
  rw [Option.some.inj hwalk]
  exact hafter

/-- What stands before a key is something in a record along a path through the key. -/
theorem FieldExpr.nonNil_before {root : String} (hroot : target.root = root) {access : Access}
    {after : List Access} :
    target.meant.NonNil literal
      (recordAlong literal root (target.accesses true ++ access :: after) value) := by
  refine ⟨_, ?_, along_cons_isNil literal access after value⟩
  rw [FieldPath.value, FieldExpr.meant, hroot, recordAlong_root]
  exact walk_along _ _ _ _

/-- An altered key is missing in a record along the path. -/
theorem FieldExpr.altered_fails (hindexes : ¬e.IndexesMap)
    (hmem : FieldExpr.bracket target (.key quote written) members ∈ e.targets)
    (hkept : ∀ key ∈ target.keys, KeptKey key.1 key.2)
    (haltered : literal (cutKey written) ≠ literal written) :
    ∃ record : LogRecord, record.HasMaps ∧ e.Fits literal record ∧
      e.check.holds literal record = some false ∧ e.meant.NonNil literal record := by
  obtain ⟨more, hmore⟩ := FieldExpr.accesses_of_mem_targets hmem
  have hroot := FieldExpr.root_of_mem_targets (FieldExpr.targets_trans hmem)
  have haccesses : e.accesses true = target.accesses true ++
      .key quote written :: (members.map (Access.member true) ++ more) := by
    rw [← hmore, FieldExpr.accesses, List.append_assoc]
    rfl
  have hmaps : (recordAlong literal e.root (e.accesses true) .leaf).HasMaps :=
    recordAlong_hasMaps hindexes (by rw [haccesses]; simp) List.prefix_rfl _
  have hfits : e.Fits literal (recordAlong literal e.root (e.accesses true) .leaf) :=
    FieldExpr.fits_recordAlong (List.append_nil _).symm trivial
  have htarget : target.meant.NonNil literal
      (recordAlong literal e.root (e.accesses true) .leaf) := by
    rw [haccesses]
    exact FieldExpr.nonNil_before hroot
  have hbefore : target.Fits literal (recordAlong literal e.root (e.accesses true) .leaf) := by
    rw [FieldExpr.Fits, haccesses, walkFits_append] at hfits
    rw [FieldExpr.Fits, haccesses, hroot]
    exact hfits.1
  refine ⟨_, hmaps, hfits, ?_, ?_⟩
  · have hfull : (target.fullCheck (.key quote written) members).holds literal
        (recordAlong literal e.root (e.accesses true) .leaf) = some false := by
      have hplain : walkAccesses literal (target.accesses false)
          (recordAlong literal e.root (e.accesses true) .leaf target.root) =
            some (along literal (.key quote written ::
              (members.map (Access.member true) ++ more)) .leaf) := by
        rw [FieldExpr.accesses_false, hroot, recordAlong_root, haccesses]
        exact walkAccesses_plain (walk_along _ _ _ _) (along_cons_isNil _ _ _ _)
      have hvalue : (FieldPath.mk target.root (target.accesses false ++
          .key quote (cutKey written) ::
            (if ']' ∈ written then [] else members).map (Access.member true))).value literal
              (recordAlong literal e.root (e.accesses true) .leaf) = some .nil := by
        rw [FieldPath.value, walkAccesses_append, hplain, Option.bind_some, along, walkAccesses,
          Access.value, if_neg haltered, Option.bind_some, walkAccesses_nil]
      rw [FieldExpr.fullCheck, Guard.holds, hvalue]
      rfl
    have hholds := FieldExpr.holds_bracket (.key quote written) members
      hkept hmaps hbefore htarget
    rw [hfull] at hholds
    rw [FieldExpr.holds_of_target hmem FieldExpr.not_isContainer_bracket (by rw [hholds]; simp), hholds]
  · refine ⟨.leaf, ?_, rfl⟩
    have hwalk := walk_along literal (e.accesses true) [] .leaf
    rw [List.append_nil] at hwalk
    rw [FieldPath.value, FieldExpr.meant, recordAlong_root]
    exact hwalk

/-- Behind a map without fields, plain members lead to `nil` or nowhere. -/
theorem walk_members_empty {members : List String} (h : members ≠ [])
    (hvalue : walkAccesses literal (members.map (Access.member false)) (.map fun _ => .nil) =
      some value) : value = .nil := by
  obtain ⟨name, rest, rfl⟩ := List.exists_cons_of_ne_nil h
  exact eq_nil_of_walkAccesses_nil hvalue

/-- Where members are lost, an empty map behind the key is enough for the check, or an error for
the check of a longer path. -/
theorem FieldExpr.lost_passes (hindexes : ¬e.IndexesMap)
    (hmem : FieldExpr.bracket target (.key quote written) members ∈ e.targets)
    (hkept : ∀ key ∈ target.keys, KeptKey key.1 key.2) (hmark : ']' ∈ written)
    (hsame : cutKey written = written) (hmembers : members ≠ []) :
    ∃ record : LogRecord, record.HasMaps ∧ e.Fits literal record ∧
      e.check.holds literal record ≠ some false ∧ ¬e.meant.NonNil literal record := by
  obtain ⟨more, hmore⟩ := FieldExpr.accesses_of_mem_targets hmem
  have hroot := FieldExpr.root_of_mem_targets (FieldExpr.targets_trans hmem)
  obtain ⟨name, rest, hnames⟩ := List.exists_cons_of_ne_nil hmembers
  have haccesses : e.accesses true = (target.accesses true ++ [.key quote written]) ++
      .member true name :: (rest.map (Access.member true) ++ more) := by
    rw [← hmore, FieldExpr.accesses, hnames]
    simp [Bracket.access]
  let record := recordAlong literal e.root (target.accesses true ++ [.key quote written])
    (.map fun _ => .nil)
  have hmaps : record.HasMaps := recordAlong_hasMaps hindexes (by simp) ⟨_, haccesses.symm⟩ _
  have hfits : e.Fits literal record := by
    refine FieldExpr.fits_recordAlong haccesses ⟨.inr ⟨_, rfl⟩, fun value hvalue => ?_⟩
    rw [← Option.some.inj hvalue]
    exact walkFits_nil _
  have htarget : target.meant.NonNil literal record := FieldExpr.nonNil_before hroot
  have hbefore : target.Fits literal record := by
    rw [FieldExpr.Fits, haccesses, List.append_assoc, walkFits_append] at hfits
    rw [FieldExpr.Fits, hroot]
    exact hfits.1
  have hplain : walkAccesses literal (target.accesses false ++ [.key quote written])
      (record target.root) = some (.map fun _ => .nil) := by
    have hwalk := walk_along literal (target.accesses true ++ [.key quote written]) []
      (.map fun _ => .nil)
    rw [List.append_nil] at hwalk
    have hplain := walkAccesses_plain hwalk rfl
    rw [List.map_append, ← FieldExpr.accesses_false] at hplain
    have hvalue : record e.root = along literal (target.accesses true ++ [.key quote written])
        (.map fun _ => .nil) := recordAlong_root _ _ _
    rw [hroot, hvalue]
    exact hplain
  have hfull : (target.fullCheck (.key quote written) members).holds literal record =
      some true := by
    have hvalue : (FieldPath.mk target.root (target.accesses false ++
        [.key quote written])).value literal record = some (.map fun _ => .nil) := hplain
    rw [FieldExpr.fullCheck, hsame, if_pos hmark, Guard.holds, List.map_nil, hvalue]
    rfl
  have hholds := FieldExpr.holds_bracket (.key quote written) members
    hkept hmaps hbefore htarget
  rw [hfull] at hholds
  refine ⟨record, hmaps, hfits, ?_, ?_⟩
  · rcases FieldExpr.eq_or_bracket hmem with rfl | ⟨operand, names, hnext⟩
    · rw [hholds]
      simp
    · -- the next bracket takes a part of `nil`
      have hlost : ∀ value, walkAccesses literal
          ((FieldExpr.bracket target (.key quote written) members).accesses false)
            (record target.root) = some value → value = .nil := by
        intro value hvalue
        have hsplit : (FieldExpr.bracket target (.key quote written) members).accesses false =
            (target.accesses false ++ [.key quote written]) ++
              members.map (Access.member false) := by
          rw [FieldExpr.accesses, List.append_assoc]
          rfl
        rw [hsplit, walkAccesses_append, hplain, Option.bind_some] at hvalue
        exact walk_members_empty hmembers hvalue
      have hnone : ((FieldExpr.bracket target (.key quote written) members).fullCheck
          operand names).holds literal record = none := by
        cases operand with
        | key quote' written' =>
          rw [FieldExpr.fullCheck, Guard.holds, Option.map_eq_none_iff, FieldPath.value,
            walkAccesses_append, Option.bind_eq_none_iff]
          intro value hvalue
          rw [hlost value hvalue]
          rfl
        | index n =>
          rw [FieldExpr.fullCheck, Guard.holds, Option.bind_eq_none_iff]
          intro holds hlonger
          rw [Guard.holds, Option.bind_eq_some_iff] at hlonger
          obtain ⟨value, hvalue, hlength⟩ := hlonger
          rw [hlost value hvalue] at hlength
          cases hlength
      have hcheck : (FieldExpr.bracket (.bracket target (.key quote written) members) operand
          names).check.holds literal record = none := by
        rw [FieldExpr.check, if_neg FieldExpr.not_isContainer_bracket, Guard.holds, hholds, Option.bind_some,
          if_pos rfl, hnone]
      rw [FieldExpr.holds_of_target hnext FieldExpr.not_isContainer_bracket (by rw [hcheck]; simp), hcheck]
      simp
  · have hwalk := walk_along literal (target.accesses true ++ [.key quote written]) []
      (.map fun _ => .nil)
    rw [List.append_nil] at hwalk
    have hvalue : record e.root = along literal (target.accesses true ++ [.key quote written])
        (.map fun _ => .nil) := recordAlong_root _ _ _
    rintro ⟨last, hlast, hnil⟩
    rw [FieldPath.value, FieldExpr.meant, haccesses, hvalue, walkAccesses_append, hwalk,
      Option.bind_some] at hlast
    have hrest : walkAccesses literal (rest.map (Access.member true) ++ more) .nil = some last :=
      hlast
    rw [eq_nil_of_walkAccesses_nil hrest] at hnil
    cases hnil

end Altered

/-! ## Exact checks -/

section Exact

variable (env : Environment F) (literal) (eval : String → LogRecord → Option Bool)

/-- A check is generated, and on every record that fits the path it holds or does not, as the path
leads to something or not. -/
def FieldExpr.Exact (e : FieldExpr) : Prop :=
  ∃ check, fieldNotNilCheck env (String.ofList e.text) = .ok check ∧
    ∀ record : LogRecord, record.HasMaps → e.Fits literal record →
      ∃ b, eval check record = some b ∧ (b = true ↔ e.meant.NonNil literal record)

/-- The check of a path is exact when the path can be cut at its brackets and keeps its keys, and,
where no key has two `]`, only then. -/
theorem fieldNotNilCheck_exact_iff (e : FieldExpr) (hvalid : e.Valid) (hcuts : e.CutsFail env)
    (hreads : e.Compiles env → ∀ record : LogRecord, record.HasMaps → e.Fits literal record →
      eval e.check.text record = e.check.holds literal record)
    (haltered : e.Compiles env → ∀ key ∈ e.keys,
      cutKey key.1 ≠ key.1 → literal (cutKey key.1) ≠ literal key.1) :
    (e.Splittable env ∧ (e.IndexesMap ∨ ∀ key ∈ e.keys, KeptKey key.1 key.2) →
        e.Exact literal env eval) ∧
      ((∀ key ∈ e.keys, key.1.count ']' ≤ 1) → e.Exact literal env eval →
        e.Splittable env ∧ (e.IndexesMap ∨ ∀ key ∈ e.keys, KeptKey key.1 key.2)) := by
  have hiff := FieldExpr.checkFuel_iff hvalid hcuts (e.text.length + 1) (Nat.lt_succ_self _)
  have hfuel : fieldNotNilCheck env (String.ofList e.text) =
      fieldNotNilCheckFuel env (e.text.length + 1) e.text := by
    rw [fieldNotNilCheck, String.toList_ofList]
  constructor
  · rintro ⟨hsplit, hkeys⟩
    obtain ⟨check, hcheck⟩ := hiff.mpr hsplit
    refine ⟨check, hfuel.trans hcheck, fun record hmaps hfits => ?_⟩
    rcases hkeys with hindexes | hkept
    · exact absurd hfits (hindexes.not_fits hmaps)
    · have hone : ∀ key ∈ e.keys, key.1.count ']' ≤ 1 := by
        intro key hmem
        rcases hkept key hmem with hnone | ⟨hcount, -⟩
        · rw [List.count_eq_zero_of_not_mem hnone]
          exact Nat.zero_le 1
        · exact hcount.le
      rw [FieldExpr.checkFuel_text hvalid hsplit.noBracket hone hcheck,
        hreads hsplit.compiles record hmaps hfits]
      exact FieldExpr.holds_check hkept hmaps hfits
  · rintro hone ⟨check, hcheck, hexact⟩
    rw [hfuel] at hcheck
    have hsplit := hiff.mp ⟨check, hcheck⟩
    refine ⟨hsplit, ?_⟩
    rw [FieldExpr.checkFuel_text hvalid hsplit.noBracket hone hcheck] at hexact
    have hholds : ∀ record : LogRecord, record.HasMaps → e.Fits literal record →
        ∃ b, e.check.holds literal record = some b ∧
          (b = true ↔ e.meant.NonNil literal record) := by
      intro record hmaps hfits
      obtain ⟨b, hb, hb'⟩ := hexact record hmaps hfits
      exact ⟨b, (hreads hsplit.compiles record hmaps hfits).symm.trans hb, hb'⟩
    by_contra hnot
    rw [not_or] at hnot
    obtain ⟨hindexes, hkeys⟩ := hnot
    obtain ⟨target, quote, written, members, hmem, hkept, hfirst⟩ :=
      FieldExpr.exists_first_key hkeys
    have hkey := FieldExpr.mem_keys_of_targets hmem
    rw [KeptKey, not_or, not_not] at hfirst
    obtain ⟨hmark, hcut⟩ := hfirst
    have hcount : written.count ']' = 1 :=
      Nat.le_antisymm (hone _ hkey) (List.count_pos_iff.mpr hmark)
    by_cases hsame : cutKey written = written
    · have hmembers : members ≠ [] := fun hempty => hcut ⟨hcount, hsame, hempty⟩
      obtain ⟨record, hmaps, hfits, hpasses, hnil⟩ :=
        FieldExpr.lost_passes hindexes hmem hkept hmark hsame hmembers
      obtain ⟨b, hb, hb'⟩ := hholds record hmaps hfits
      cases b with
      | true => exact hnil (hb'.mp rfl)
      | false => exact hpasses hb
    · obtain ⟨record, hmaps, hfits, hfails, hnonNil⟩ :=
        FieldExpr.altered_fails hindexes hmem hkept (haltered hsplit.compiles _ hkey hsame)
      obtain ⟨b, hb, hb'⟩ := hholds record hmaps hfits
      rw [hfails, hb'.mpr hnonNil] at hb
      cases hb

end Exact

/-! ## Two paths -/

/-- `attributes["a]b"]`. -/
def bracketKey : FieldExpr := .bracket (.names "attributes" []) (.key '"' ['a', ']', 'b']) []

/-- `attributes.é`. -/
def accentName : FieldExpr := .names "attributes" ["é"]

/-- The key `a]b` is kept, and its check is exact. -/
theorem bracketKey_exact :
    bracketKey.Exact String.ofList (readingTwo "" "") (evalOnly bracketKey.check) := by
  have hnames : (FieldExpr.names "attributes" []).Valid :=
    List.forall_mem_singleton.mpr (by decide)
  refine (fieldNotNilCheck_exact_iff String.ofList (readingTwo "" "") (evalOnly bracketKey.check)
    bracketKey ⟨hnames, by decide, .inl rfl, by decide⟩ ?_ ?_ ?_).1 ⟨⟨?_, ?_, ?_⟩, .inr ?_⟩
  · intro target quote before after members hmem
    rcases List.mem_cons.mp hmem with heq | hmem
    · obtain ⟨-, hoperand, -⟩ := FieldExpr.bracket.inj heq
      obtain ⟨-, hwritten⟩ := Bracket.key.inj hoperand
      have hbracket : '[' ∈ ['a', ']', 'b'] := by rw [← hwritten]; simp
      exact absurd hbracket (by decide)
    · cases List.mem_singleton.mp hmem
  · intro _ record _ _
    rw [evalOnly, if_pos rfl]
  · intro _ key hkey hne
    exact absurd (by rw [List.mem_singleton.mp hkey]; decide +kernel) hne
  · exact fun _ _ => rfl
  · decide +kernel
  · intro key hkey
    rw [List.mem_singleton.mp hkey]
    decide
  · intro key hkey
    rw [List.mem_singleton.mp hkey]
    decide +kernel

/-- The name `é` is a letter of two bytes: the path is reversed out of range. -/
theorem accentName_not_exact :
    accentName.Valid ∧ String.ofList accentName.text = "attributes.é" ∧
      fieldNotNilCheck (readingTwo "" "") "attributes.é" = .error .panic ∧
      ¬accentName.Exact String.ofList (readingTwo "" "") (evalOnly accentName.check) := by
  have htext : String.ofList accentName.text = "attributes.é" := by decide +kernel
  have hpanic : fieldNotNilCheck (readingTwo "" "") "attributes.é" = .error .panic := by
    decide +kernel
  have hvalid : accentName.Valid := fun name hname => by
    revert name
    decide
  refine ⟨hvalid, htext, hpanic, ?_⟩
  rintro ⟨check, hcheck, -⟩
  rw [htext, hpanic] at hcheck
  cases hcheck

end Signoz.LogPipelines
