import Mathlib.Algebra.Order.BigOperators.Group.List
import Mathlib.Algebra.Order.Group.Nat
import Mathlib.Data.Finset.Max
import Signoz.Lib.CharLists
import Signoz.LogPipelines.GetOperators
import Signoz.LogPipelines.GuardLanguage

/-!
# The guard of the fields that an expression reads

`fieldsReferencedInExprNotNilCheck` checks the fields of an expression that no longer field extends
as a text. A field that is left out is guarded all the same when it is a container of one that is
checked. `attributes.a` is no container of `attributes.ab`, though it is a prefix of it.
-/

namespace Signoz.LogPipelines

open scoped Lib.CharLists

variable {F : Type}

/-! ## Dotted paths -/

/-- A name has no character that ends it. -/
def IsName (name : String) : Prop :=
  name ≠ "" ∧ ∀ c ∈ name.toList, c ∉ ['.', '?', '[', ']', '"', '\'']

instance (name : String) : Decidable (IsName name) :=
  inferInstanceAs (Decidable (name ≠ "" ∧ _))

/-- Names joined by dots. -/
def dotted (names : List String) : String := ".".intercalate names

/-- The path with optional members. -/
def optionalPath : List String → FieldPath
  | [] => ⟨"", []⟩
  | root :: rest => ⟨root, rest.map (Access.member true)⟩

/-- The path has a value, and it is not `nil`. -/
def FieldPath.NonNil (literal : List Char → String) (path : FieldPath) (record : LogRecord) :
    Prop :=
  ∃ value, path.value literal record = some value ∧ value.isNil = false

/-- The `attributes` and the `resource` of a log record are maps. -/
def LogRecord.HasMaps (record : LogRecord) : Prop :=
  ∀ name ∈ ["attributes", "resource"], ∃ fields, record name = .map fields

/-- An evaluator of expressions reads a check as it is meant. -/
def Reads (literal : List Char → String) (eval : String → LogRecord → Option Bool)
    (guard : Guard) : Prop :=
  ∀ record, eval guard.text record = guard.holds literal record

/-- No longer path extends this one, as texts. -/
def Deepest (paths : List (List String)) (names : List String) : Prop :=
  ∀ longer ∈ paths, ¬((dotted names).utf8ByteSize < (dotted longer).utf8ByteSize ∧
    hasPrefix (dotted longer) (dotted names) = true)

instance (paths : List (List String)) (names : List String) : Decidable (Deepest paths names) :=
  inferInstanceAs (Decidable (∀ longer ∈ paths, _))

/-- The check that is meant for the collected paths. -/
def referencedGuard (paths : List (List String)) : Option Guard :=
  match (paths.filter fun names => Deepest paths names).map
      fun names => Guard.paren (.notNil (optionalPath names)) with
  | [] => none
  | first :: rest => some (Guard.all first rest)

/-- What has no `.` and no `?` stays as it is. -/
theorem optionalChainedPath_append {name rest : List Char} (h : ∀ c ∈ name, c ≠ '.' ∧ c ≠ '?') :
    optionalChainedPath (name ++ rest) = name ++ optionalChainedPath rest := by
  induction name with
  | nil => rfl
  | cons c name ih =>
    obtain ⟨⟨hdot, hmark⟩, hname⟩ := List.forall_mem_cons.mp h
    rw [List.cons_append, List.cons_append, ← ih hname, optionalChainedPath.eq_3]
    · exact fun _ hc _ => hmark hc
    · exact fun hc => hdot hc

theorem IsName.noDots {name : String} (h : IsName name) : ∀ c ∈ name.toList, c ≠ '.' ∧ c ≠ '?' := by
  intro c hc
  have hnot := h.2 c hc
  simp only [List.mem_cons, not_or] at hnot
  exact ⟨hnot.1, hnot.2.1⟩

variable {names : List String}

/-- The dots of joined names become optional members. -/
theorem optionalChainedPath_members (h : ∀ name ∈ names, IsName name) :
    optionalChainedPath (names.flatMap fun name => (Access.member false name).text) =
      names.flatMap fun name => (Access.member true name).text := by
  induction names with
  | nil => rfl
  | cons name names ih =>
    obtain ⟨hname, hnames⟩ := List.forall_mem_cons.mp h
    rw [List.flatMap_cons, List.flatMap_cons, ← ih hnames]
    change optionalChainedPath ('.' :: (name.toList ++ _)) = '?' :: '.' :: (name.toList ++ _)
    rw [optionalChainedPath, optionalChainedPath_append hname.noDots]

theorem dotted_toList (root : String) (rest : List String) :
    (dotted (root :: rest)).toList =
      root.toList ++ rest.flatMap fun name => (Access.member false name).text := by
  induction rest generalizing root with
  | nil => simp [dotted]
  | cons name rest ih =>
    have ih' := ih name
    rw [dotted] at ih'
    rw [dotted, String.intercalate_cons_cons, String.toList_append, String.toList_append, ih']
    simp [Access.text]

/-- The text that the check of joined names compares with `nil`. -/
theorem optionalChainedPath_dotted (h : ∀ name ∈ names, IsName name) :
    optionalChainedPath (dotted names).toList = (optionalPath names).text := by
  cases names with
  | nil => rfl
  | cons root rest =>
    obtain ⟨hroot, hrest⟩ := List.forall_mem_cons.mp h
    rw [dotted_toList, optionalChainedPath_append hroot.noDots,
      optionalChainedPath_members hrest, optionalPath, FieldPath.text, List.flatMap_map]

theorem bracket_notMem_dotted (h : ∀ name ∈ names, IsName name) :
    '[' ∉ (dotted names).toList := by
  cases names with
  | nil => decide
  | cons root rest =>
    have hname : ∀ name ∈ root :: rest, '[' ∉ name.toList := by
      intro name hname hmem
      exact (h name hname).2 _ hmem (by simp)
    rw [dotted_toList, List.mem_append, not_or, List.mem_flatMap]
    refine ⟨hname root List.mem_cons_self, ?_⟩
    rintro ⟨name, hmem, hbracket⟩
    rcases List.mem_cons.mp hbracket with heq | hbracket
    · exact absurd heq (by decide)
    · exact hname name (List.mem_cons_of_mem _ hmem) hbracket

theorem reverseString_cases (s : List Char) :
    reverseString s = none ∨ reverseString s = some s.reverse := by
  rw [reverseString]
  split
  · exact .inl rfl
  · exact .inr rfl

/-- What does not have the separator is not split. -/
theorem rSplitAfterTwo_of_not_mem {path : List Char} {sep : Char} (h : sep ∉ path) :
    rSplitAfterTwo path sep = none ∨ rSplitAfterTwo path sep = some [path] := by
  have hreverse : sep ∉ path.reverse := by
    rwa [List.mem_reverse]
  rw [rSplitAfterTwo]
  obtain hnone | hsome := reverseString_cases path
  · rw [hnone]
    exact .inl rfl
  · rw [hsome, Option.bind_some, splitAfterTwo, if_neg hreverse, List.reverse_singleton,
      List.mapM_cons, List.mapM_nil]
    obtain hnone | hsome := reverseString_cases path.reverse
    · rw [hnone]
      exact .inl rfl
    · rw [hsome, List.reverse_reverse]
      exact .inr rfl

section Checks

variable (env : Environment F)

/-- The check of a path without brackets. -/
theorem fieldNotNilCheck_dotted {names : List String} (h : ∀ name ∈ names, IsName name)
    {check : String} (hcheck : fieldNotNilCheck env (dotted names) = .ok check) :
    check = (Guard.notNil (optionalPath names)).text := by
  rw [fieldNotNilCheck, fieldNotNilCheckFuel] at hcheck
  split at hcheck
  · cases hcheck
  · obtain hnone | hsome := rSplitAfterTwo_of_not_mem (bracket_notMem_dotted h)
    · rw [hnone] at hcheck
      cases hcheck
    · rw [hsome] at hcheck
      rw [← Except.ok.inj hcheck, optionalChainedPath_dotted h, Guard.text]

/-- The checks of several paths without brackets. -/
theorem mapM_fieldNotNilCheck {paths : List (List String)}
    (h : ∀ names ∈ paths, ∀ name ∈ names, IsName name) : ∀ {checks : List String},
    ((paths.map dotted).mapM fun field =>
      (during ("could not create nil check for " ++ field) (fieldNotNilCheck env field)).map
        fun checkExpr => "(" ++ checkExpr ++ ")") = .ok checks →
      checks = paths.map fun names => (Guard.paren (.notNil (optionalPath names))).text := by
  induction paths with
  | nil =>
    intro checks hchecks
    exact (Except.ok.inj hchecks).symm
  | cons names paths ih =>
    intro checks hchecks
    obtain ⟨hnames, hpaths⟩ := List.forall_mem_cons.mp h
    rw [List.map_cons, List.mapM_cons, bind_ok_iff] at hchecks
    obtain ⟨check, hcheck, hrest⟩ := hchecks
    obtain ⟨checks', hchecks', heq⟩ := bind_ok_iff.mp hrest
    obtain ⟨checkExpr, hduring, rfl⟩ := map_ok_iff.mp hcheck
    rw [during_ok_iff] at hduring
    rw [← Except.ok.inj heq, ih hpaths hchecks', fieldNotNilCheck_dotted env hnames hduring]
    rfl

theorem deepest_map (paths : List (List String)) :
    ((paths.map dotted).filter fun field =>
      !(paths.map dotted).any fun e =>
        e.utf8ByteSize > field.utf8ByteSize && hasPrefix e field) =
      (paths.filter fun names => Deepest paths names).map dotted := by
  rw [List.filter_map]
  congr 2
  funext names
  rw [Function.comp_apply, Bool.eq_iff_iff, Bool.not_eq_true', decide_eq_true_eq,
    List.any_eq_false, List.forall_mem_map]
  apply forall_congr'
  intro longer
  apply imp_congr_right
  intro _
  rw [Bool.and_eq_true, decide_eq_true_eq]

/-- What the returned check reads. -/
theorem referencedCheck_text {expr : String} {paths : List (List String)}
    (h : ∀ names ∈ paths, ∀ name ∈ names, IsName name)
    (hcollected : logFieldsReferencedInExpr env expr = .ok (paths.map dotted)) {check : String}
    (hcheck : fieldsReferencedInExprNotNilCheck env expr = .ok check) {guard : Guard}
    (hguard : referencedGuard paths = some guard) : check = guard.text := by
  rw [fieldsReferencedInExprNotNilCheck, hcollected] at hcheck
  dsimp only [during] at hcheck
  rw [deepest_map] at hcheck
  obtain ⟨checks, hchecks, rfl⟩ := map_ok_iff.mp hcheck
  have hdeepest : ∀ names ∈ paths.filter fun names => Deepest paths names,
      ∀ name ∈ names, IsName name := fun names hmem => h names (List.mem_filter.mp hmem).1
  rw [mapM_fieldNotNilCheck env hdeepest hchecks]
  rw [referencedGuard] at hguard
  split at hguard
  · cases hguard
  · rename_i first rest hsplit
    rw [← Option.some.inj hguard, Guard.text_all, ← hsplit, List.map_map]
    rfl

end Checks

/-! ## Records -/

section Records

variable {literal : List Char → String}

theorem holds_notNil {path : FieldPath} {record : LogRecord} :
    (Guard.notNil path).holds literal record = some true ↔ path.NonNil literal record := by
  rw [Guard.holds, Option.map_eq_some_iff, FieldPath.NonNil]
  simp only [Bool.not_eq_true']

/-- Behind `nil` the optional members are `nil`. -/
theorem walkAccesses_nil (names : List String) :
    walkAccesses literal (names.map (Access.member true)) .nil = some .nil := by
  induction names with
  | nil => rfl
  | cons name names ih => exact ih

/-- A container of what is not `nil` is not `nil`. -/
theorem nonNil_of_prefix {names deeper : List String} {record : LogRecord} (hne : names ≠ [])
    (hfront : names <+: deeper) (h : (optionalPath deeper).NonNil literal record) :
    (optionalPath names).NonNil literal record := by
  obtain ⟨more, rfl⟩ := hfront
  cases names with
  | nil => exact absurd rfl hne
  | cons root rest =>
    obtain ⟨value, hvalue, hnil⟩ := h
    rw [FieldPath.value, List.cons_append, optionalPath, List.map_append,
      walkAccesses_append] at hvalue
    obtain ⟨value', hvalue', hmore⟩ := Option.bind_eq_some_iff.mp hvalue
    refine ⟨value', hvalue', ?_⟩
    cases value' with
    | nil =>
      rw [walkAccesses_nil] at hmore
      rw [← Option.some.inj hmore] at hnil
      exact hnil
    | _ => rfl

/-- What is left of a path behind its first name. -/
def behind (name : String) : List String → Option (List String)
  | [] => none
  | first :: rest => if first = name then some rest else none

/-- The value with the maps that the paths go through, and no others, down to a depth. -/
def treeOf : Nat → List (List String) → LogValue
  | _, [] => .nil
  | 0, _ => .map fun _ => .nil
  | depth + 1, paths => .map fun name => treeOf depth (paths.filterMap (behind name))

theorem treeOf_isNil (depth : Nat) (paths : List (List String)) :
    (treeOf depth paths).isNil = true ↔ paths = [] := by
  cases paths with
  | nil => cases depth with
    | zero => simp [treeOf, LogValue.isNil]
    | succ depth => simp [treeOf, LogValue.isNil]
  | cons path paths => cases depth with
    | zero => simp [treeOf, LogValue.isNil]
    | succ depth => simp [treeOf, LogValue.isNil]

theorem treeOf_cases (depth : Nat) (paths : List (List String)) :
    treeOf depth paths = .nil ∨ ∃ fields, treeOf depth paths = .map fields := by
  cases paths with
  | nil => cases depth with
    | zero => exact .inl rfl
    | succ depth => exact .inl rfl
  | cons path paths => cases depth with
    | zero => exact .inr ⟨_, rfl⟩
    | succ depth => exact .inr ⟨_, rfl⟩

theorem exists_behind {name : String} {names : List String} {paths : List (List String)} :
    (∃ path ∈ paths.filterMap (behind name), names <+: path) ↔
      ∃ path ∈ paths, name :: names <+: path := by
  constructor
  · rintro ⟨path, hmem, hfront⟩
    obtain ⟨whole, hwhole, hbehind⟩ := List.mem_filterMap.mp hmem
    refine ⟨whole, hwhole, ?_⟩
    cases whole with
    | nil => cases hbehind
    | cons first rest =>
      rw [behind] at hbehind
      split_ifs at hbehind with hfirst
      obtain rfl := Option.some.inj hbehind
      rw [hfirst]
      exact List.cons_prefix_cons.mpr ⟨rfl, hfront⟩
  · rintro ⟨whole, hwhole, hfront⟩
    obtain ⟨more, rfl⟩ := hfront
    refine ⟨names ++ more, List.mem_filterMap.mpr ⟨_, hwhole, ?_⟩, List.prefix_append _ _⟩
    rw [List.cons_append, behind, if_pos rfl]

/-- The tree has the containers of its paths. -/
theorem walk_treeOf (literal : List Char → String) (names : List String) :
    ∀ (depth : Nat) (paths : List (List String)),
    names.length ≤ depth → ∃ value,
      walkAccesses literal (names.map (Access.member true)) (treeOf depth paths) = some value ∧
        (value.isNil = false ↔ ∃ path ∈ paths, names <+: path) := by
  induction names with
  | nil =>
    intro depth paths _
    refine ⟨_, rfl, ?_⟩
    rw [← Bool.not_eq_true, treeOf_isNil]
    simp only [List.nil_prefix, and_true]
    constructor
    · exact List.exists_mem_of_ne_nil paths
    · rintro ⟨path, hpath⟩ rfl
      exact List.not_mem_nil hpath
  | cons name names ih =>
    intro depth paths hdepth
    cases paths with
    | nil =>
      refine ⟨.nil, ?_, by simp [LogValue.isNil]⟩
      have htree : treeOf depth [] = .nil := by
        cases depth with
        | zero => rfl
        | succ depth => rfl
      rw [htree]
      exact walkAccesses_nil (name :: names)
    | cons path paths =>
      obtain ⟨depth, rfl⟩ : ∃ depth', depth = depth' + 1 :=
        ⟨depth - 1, by rw [List.length_cons] at hdepth; omega⟩
      rw [← exists_behind]
      exact ih depth _ (by rw [List.length_cons] at hdepth; omega)

/-- The record with the containers of the paths; `attributes` and `resource` are maps anyway. -/
def recordOf (depth : Nat) (paths : List (List String)) : LogRecord := fun root =>
  let value := treeOf depth (paths.filterMap (behind root))
  if value.isNil ∧ root ∈ ["attributes", "resource"] then .map fun _ => .nil else value

theorem recordOf_hasMaps (depth : Nat) (paths : List (List String)) :
    (recordOf depth paths).HasMaps := by
  intro root hroot
  rw [recordOf]
  split_ifs with hnil
  · exact ⟨_, rfl⟩
  · obtain hempty | hmap := treeOf_cases depth (paths.filterMap (behind root))
    · exact absurd ⟨by rw [hempty]; rfl, hroot⟩ hnil
    · exact hmap

/-- A path of several names is not `nil` in the record when it leads to a container of one of its
paths. -/
theorem nonNil_recordOf {depth : Nat} {paths : List (List String)} {names : List String}
    (htwo : 2 ≤ names.length) (hdepth : names.length ≤ depth) :
    (optionalPath names).NonNil literal (recordOf depth paths) ↔
      ∃ path ∈ paths, names <+: path := by
  match names, htwo with
  | root :: name :: rest, _ =>
    rw [← exists_behind, FieldPath.NonNil, FieldPath.value, optionalPath, recordOf]
    split_ifs with hempty
    · -- the map that stands for a missing one is empty
      rw [treeOf_isNil] at hempty
      rw [hempty.1]
      constructor
      · rintro ⟨value, hvalue, hnil⟩
        have hwalk : walkAccesses literal ((name :: rest).map (Access.member true))
            (.map fun _ => .nil) = some .nil := walkAccesses_nil rest
        rw [hwalk] at hvalue
        rw [← Option.some.inj hvalue] at hnil
        cases hnil
      · rintro ⟨path, hpath, -⟩
        exact absurd hpath List.not_mem_nil
    · obtain ⟨value, hwalk, hiff⟩ := walk_treeOf literal (name :: rest) depth
        (paths.filterMap (behind root)) (Nat.le_of_succ_le hdepth)
      rw [← hiff]
      constructor
      · rintro ⟨value', hvalue', hnil⟩
        rw [hwalk] at hvalue'
        rwa [Option.some.inj hvalue']
      · exact fun hnil => ⟨value, hwalk, hnil⟩

end Records

/-! ## What the check guards -/

variable {paths : List (List String)}

/-- A path that is longest as a text is extended by none. -/
theorem exists_deepest (h : paths ≠ []) :
    ∃ names ∈ paths, Deepest paths names := by
  obtain ⟨first, hfirst⟩ := List.exists_mem_of_ne_nil paths h
  obtain ⟨names, hnames, hlongest⟩ := Finset.exists_max_image paths.toFinset
    (fun names => (dotted names).utf8ByteSize) ⟨first, List.mem_toFinset.mpr hfirst⟩
  refine ⟨names, List.mem_toFinset.mp hnames, ?_⟩
  rintro longer hlonger ⟨hlt, -⟩
  exact absurd hlt (Nat.not_lt.mpr (hlongest longer (List.mem_toFinset.mpr hlonger)))

theorem exists_referencedGuard (h : paths ≠ []) :
    ∃ guard, referencedGuard paths = some guard := by
  obtain ⟨names, hnames, hdeepest⟩ := exists_deepest h
  have hmem : names ∈ paths.filter fun names => Deepest paths names :=
    List.mem_filter.mpr ⟨hnames, decide_eq_true hdeepest⟩
  rw [referencedGuard]
  split
  · rename_i hempty
    rw [List.map_eq_nil_iff] at hempty
    rw [hempty] at hmem
    cases hmem
  · exact ⟨_, rfl⟩

theorem holds_referencedGuard {literal : List Char → String} {record : LogRecord} {guard : Guard}
    (h : referencedGuard paths = some guard) :
    guard.holds literal record = some true ↔
      ∀ names ∈ paths, Deepest paths names → (optionalPath names).NonNil literal record := by
  rw [referencedGuard] at h
  split at h
  · cases h
  · rename_i first rest hsplit
    rw [← Option.some.inj h, Guard.holds_all, ← hsplit, List.forall_mem_map]
    apply forall_congr'
    intro names
    rw [List.mem_filter, decide_eq_true_eq, and_imp, Guard.holds, holds_notNil]

/-- The check of an expression guards every field that is collected from it, on every record, if
and only if each of them is a container of a field that none extends as a text, or such a field
itself. -/
theorem referencedFields_guarded_iff (env : Environment F) (literal : List Char → String)
    (eval : String → LogRecord → Option Bool) (expr : String) (paths : List (List String))
    (htwo : ∀ names ∈ paths, 2 ≤ names.length)
    (hnames : ∀ names ∈ paths, ∀ name ∈ names, IsName name)
    (hcollected : logFieldsReferencedInExpr env expr = .ok (paths.map dotted)) (check : String)
    (hcheck : fieldsReferencedInExprNotNilCheck env expr = .ok check)
    (hreads : ∀ guard, referencedGuard paths = some guard → Reads literal eval guard) :
    (∀ record : LogRecord, record.HasMaps → eval check record = some true →
        ∀ names ∈ paths, (optionalPath names).NonNil literal record) ↔
      ∀ names ∈ paths, ∃ deepest ∈ paths, Deepest paths deepest ∧ names <+: deepest := by
  constructor
  · intro hguarded names hmem
    by_contra hno
    -- a record with the containers of the fields that are checked, and nothing else
    let checked := paths.filter fun names => Deepest paths names
    let depth := (paths.map List.length).sum
    have hdepth : ∀ names ∈ paths, names.length ≤ depth := fun names hmem =>
      List.single_le_sum (fun _ _ => Nat.zero_le _) _ (List.mem_map_of_mem hmem)
    have hnonNil : ∀ names ∈ paths, (optionalPath names).NonNil literal (recordOf depth checked) ↔
        ∃ path ∈ checked, names <+: path := fun names hmem =>
      nonNil_recordOf (htwo names hmem) (hdepth names hmem)
    obtain ⟨guard, hguard⟩ := exists_referencedGuard (List.ne_nil_of_mem hmem)
    have hholds : guard.holds literal (recordOf depth checked) = some true := by
      rw [holds_referencedGuard hguard]
      intro deepest hdeepest hlast
      rw [hnonNil deepest hdeepest]
      exact ⟨deepest, List.mem_filter.mpr ⟨hdeepest, decide_eq_true hlast⟩, List.prefix_rfl⟩
    have heval : eval check (recordOf depth checked) = some true := by
      rw [referencedCheck_text env hnames hcollected hcheck hguard, hreads guard hguard, hholds]
    have hfield := hguarded _ (recordOf_hasMaps depth checked) heval names hmem
    obtain ⟨deepest, hdeepest, hfront⟩ := (hnonNil names hmem).mp hfield
    obtain ⟨hpath, hlast⟩ := List.mem_filter.mp hdeepest
    exact hno ⟨deepest, hpath, of_decide_eq_true hlast, hfront⟩
  · intro hcovered record _ heval names hmem
    obtain ⟨deepest, hdeepest, hlast, hfront⟩ := hcovered names hmem
    obtain ⟨guard, hguard⟩ := exists_referencedGuard (List.ne_nil_of_mem hmem)
    rw [referencedCheck_text env hnames hcollected hcheck hguard, hreads guard hguard,
      holds_referencedGuard hguard] at heval
    have hne : names ≠ [] := by
      rintro rfl
      exact absurd (htwo [] hmem) (by decide)
    exact nonNil_of_prefix hne hfront (heval deepest hdeepest hlast)

/-! ## Two expressions -/

/-- An environment in which every path compiles and every expression reads two fields. -/
def readingTwo (first second : String) : Environment Unit where
  parse := fun _ => .ok "body != nil"
  compile := fun _ => .ok ()
  memberNodes := fun _ => .ok [first, second]
  regexForStrptimeLayout := fun layout => .ok layout
  subexpNames := fun _ => .ok [""]
  newUUID := fun _ _ _ => ""
  maxJSONFlatteningDepth := 1
  sendOnErrorQuiet := "send_quiet"

/-- An evaluator of one check. -/
def evalOnly (guard : Guard) (text : String) (record : LogRecord) : Option Bool :=
  if text = guard.text then guard.holds String.ofList record else none

/-- The check of one path. -/
def guardOf (names : List String) : Guard := .paren (.notNil (optionalPath names))

/-- `attributes.a.b + attributes.a` reads a field and its container. -/
theorem container_guarded :
    fieldsReferencedInExprNotNilCheck (readingTwo "attributes.a.b" "attributes.a")
        "attributes.a.b + attributes.a" = .ok "(attributes?.a?.b != nil)" ∧
      ∀ record : LogRecord, record.HasMaps →
        evalOnly (guardOf ["attributes", "a", "b"]) "(attributes?.a?.b != nil)" record =
            some true →
          ∀ names ∈ [["attributes", "a", "b"], ["attributes", "a"]],
            (optionalPath names).NonNil String.ofList record := by
  have hcheck : fieldsReferencedInExprNotNilCheck (readingTwo "attributes.a.b" "attributes.a")
      "attributes.a.b + attributes.a" = .ok "(attributes?.a?.b != nil)" := by decide +kernel
  refine ⟨hcheck, (referencedFields_guarded_iff (readingTwo "attributes.a.b" "attributes.a")
    String.ofList (evalOnly (guardOf ["attributes", "a", "b"])) "attributes.a.b + attributes.a"
    [["attributes", "a", "b"], ["attributes", "a"]] (by decide) (by decide +kernel)
    (by decide +kernel) "(attributes?.a?.b != nil)" hcheck ?_).mpr (by decide +kernel)⟩
  intro guard hguard record
  have hone : referencedGuard [["attributes", "a", "b"], ["attributes", "a"]] =
      some (guardOf ["attributes", "a", "b"]) := by decide +kernel
  obtain rfl := Option.some.inj (hone.symm.trans hguard)
  rw [evalOnly, if_pos rfl]

/-- A record with the attribute `ab`. -/
def recordWithAB : LogRecord := fun _ => .map fun name => if name = "ab" then .leaf else .nil

/-- `attributes.a + attributes.ab` reads two fields, of which only the second is checked. -/
theorem sibling_not_guarded :
    logFieldsReferencedInExpr (readingTwo "attributes.a" "attributes.ab")
        "attributes.a + attributes.ab" = .ok ["attributes.a", "attributes.ab"] ∧
      fieldsReferencedInExprNotNilCheck (readingTwo "attributes.a" "attributes.ab")
        "attributes.a + attributes.ab" = .ok "(attributes?.ab != nil)" ∧
      recordWithAB.HasMaps ∧
      evalOnly (guardOf ["attributes", "ab"]) "(attributes?.ab != nil)" recordWithAB = some true ∧
      ¬(optionalPath ["attributes", "a"]).NonNil String.ofList recordWithAB := by
  refine ⟨by decide +kernel, by decide +kernel, fun _ _ => ⟨_, rfl⟩, by decide +kernel, ?_⟩
  rintro ⟨value, hvalue, hnil⟩
  obtain rfl := Option.some.inj hvalue
  cases hnil

end Signoz.LogPipelines
