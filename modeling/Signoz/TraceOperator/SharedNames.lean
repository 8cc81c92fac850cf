import Signoz.TraceOperator.CTEMeaning

/-!
# Sub-expressions that share a name

Two sub-expressions with the same CTE name share the CTE that was built first. `asNamed` reads an
expression that way: every sub-expression stands for the first one of its name (`standsFor`), and
`all_spans` for the stored spans (`namedSpans`). `emittedSpans` is the value of an expression that
is read so: undefined where a `->` hides its operand (`HidesOperand`) or a `||` is over tables of
different columns (`MixesColumns`), and otherwise what the expression denotes (`emittedSpans_eq`).
-/

namespace Signoz.TraceOperator

open Lib.Bindings TraceOperatorCTEBuilder

/-! ## Reading an expression by names -/

/-- The sub-expressions in the order of the walk, the last one first. -/
def subexpressions : TraceOperand → List TraceOperand
  | .nil => []
  | .queryRef name => [.queryRef name]
  | .operation op left right =>
    .operation op left right :: (subexpressions right ++ subexpressions left)

variable {expr : TraceOperand}

theorem mem_subexpressions_self (h : expr ≠ .nil) :
    expr ∈ subexpressions expr := by
  cases expr <;> simp_all [subexpressions]

/-- An operand, read through the names bound so far. -/
def operandAsNamed (bound : String → Option TraceOperand) (operand : TraceOperand) :
    TraceOperand :=
  if operand = .nil then .nil else (bound (cteName operand)).getD operand

/-- An expression with its operands read through the names bound so far. -/
def withOperands (bound : String → Option TraceOperand) : TraceOperand → TraceOperand
  | .nil => .nil
  | .queryRef name => .queryRef name
  | .operation op left right =>
    .operation op (operandAsNamed bound left) (operandAsNamed bound right)

/-- What a name stands for once the given sub-expressions have been visited: the first of them that
goes under the name. -/
def standsFor : List TraceOperand → String → Option TraceOperand
  | [], _ => none
  | expr :: earlier, name =>
    match standsFor earlier name with
    | some first => some first
    | none => if cteName expr = name then some (withOperands (standsFor earlier) expr) else none

/-- The expression as its CTE names read it. -/
def asNamed (expr : TraceOperand) : TraceOperand :=
  (standsFor (subexpressions expr) (cteName expr)).getD expr

/-- The spans of a query as its CTE name reads it: `all_spans` is taken. -/
def namedSpans (all : Set Span) (queries : List (String × TraceQuery)) (name : String) :
    Set Span :=
  if name = "all_spans" then all else querySpans all queries name

/-- Some `->` has the query `up` for an operand, which its statement hides. -/
def HidesOperand : TraceOperand → Prop
  | .nil => False
  | .queryRef _ => False
  | .operation op left right =>
    op = .indirectDescendant ∧ (left = .queryRef "up" ∨ right = .queryRef "up") ∨
      HidesOperand left ∨ HidesOperand right

/-- The columns of the CTE of an expression that is read by names. -/
def TraceOperand.columns : TraceOperand → Columns
  | .nil => .stored
  | .queryRef name => if name = "all_spans" then .withServiceName else .stored
  | .operation op left right =>
    if op = .not ∧ right = .nil then .withServiceName else left.columns

/-- Some `||` unites a table that has `service.name` with one that has not. -/
def MixesColumns : TraceOperand → Prop
  | .nil => False
  | .queryRef _ => False
  | .operation op left right =>
    op = .or ∧ left.columns ≠ right.columns ∨ MixesColumns left ∨ MixesColumns right

/-- Every CTE refers only to CTEs before it, in its text and in its dependencies. -/
def RefersEarlier (ctes : List CTENode) : Prop :=
  ReadsEarlier (fun node : CTENode => node.sql.references ++ node.dependsOn)
    (ctes.map fun node => (node.name, node))

theorem RefersEarlier.concat {ctes : List CTENode} {node : CTENode} (h : RefersEarlier ctes)
    (hnode : ∀ name ∈ node.sql.references ++ node.dependsOn, name ∈ ctes.map CTENode.name) :
    RefersEarlier (ctes ++ [node]) := by
  unfold RefersEarlier
  rw [List.map_append]
  refine ReadsEarlier.concat h fun name hname => ?_
  have := hnode name hname
  simpa using this

/-! ## Names -/

theorem head_operatorCTEName {op : TraceOperatorType} {leftCTE : String} {c : Char}
    (h : leftCTE.toList.head? = some c) (rightCTE : String) :
    (operatorCTEName op leftCTE rightCTE).toList.head? = some c := by
  simp only [operatorCTEName, String.toList_append, List.head?_append, h, Option.some_or]

/-- The name of an expression starts with a letter; that of a resource filter does not. -/
theorem cteName_startsWithLetter (h : Parsed expr) :
    ∃ c, (cteName expr).toList.head? = some c ∧ c.isAlpha = true := by
  induction h with
  | @queryRef name valid =>
    show ∃ c, name.toList.head? = some c ∧ c.isAlpha = true
    cases hcs : name.toList with
    | nil => simp [hcs, isQueryName] at valid
    | cons c cs =>
      rw [hcs] at valid
      simp only [isQueryName, Bool.and_eq_true] at valid
      exact ⟨c, rfl, valid.1⟩
  | unaryNot _ ih =>
    obtain ⟨c, hc, halpha⟩ := ih
    exact ⟨c, head_operatorCTEName hc _, halpha⟩
  | binary op _ _ ih _ =>
    obtain ⟨c, hc, halpha⟩ := ih
    exact ⟨c, head_operatorCTEName hc _, halpha⟩

theorem cteName_ne_empty (h : Parsed expr) : cteName expr ≠ "" := by
  obtain ⟨c, hc, _⟩ := cteName_startsWithLetter h
  intro hempty
  simp [hempty] at hc

theorem cteName_ne_resourceFilter (h : Parsed expr) (name : String) :
    cteName expr ≠ resourceFilterCTEName name := by
  obtain ⟨c, hc, halpha⟩ := cteName_startsWithLetter h
  intro heq
  have hname : resourceFilterCTEName name = "__resource_filter_" ++ name := rfl
  have hhead : "__resource_filter_".toList.head? = some '_' := by decide +kernel
  rw [heq, hname, String.toList_append, List.head?_append, hhead, Option.some_or] at hc
  rw [← Option.some.inj hc] at halpha
  exact absurd halpha (by decide)

/-- The name of an operation has two underscores of its own. -/
theorem count_underscore_operatorCTEName (op : TraceOperatorType) (leftCTE rightCTE : String) :
    2 ≤ (operatorCTEName op leftCTE rightCTE).toList.count '_' := by
  simp only [operatorCTEName, String.toList_append, List.count_append, String.reduceToList]
  have : List.count '_' ['_'] = 1 := by decide
  omega

/-- Too few underscores for the name of an operation. -/
theorem count_underscore_reserved :
    "all_spans".toList.count '_' < 2 ∧ "up".toList.count '_' < 2 := by
  decide +kernel

variable {name : String}

/-- A name with fewer than two underscores is a query's. -/
theorem eq_queryRef_of_cteName (h : Parsed expr) (hname : cteName expr = name)
    (hcount : name.toList.count '_' < 2) :
    expr = .queryRef name := by
  cases h with
  | queryRef valid => exact congrArg TraceOperand.queryRef hname
  | unaryNot _ =>
    have := count_underscore_operatorCTEName .not
    rw [← hname] at hcount
    exact absurd (this _ _) (by simpa [cteName] using hcount)
  | binary op _ _ =>
    have := count_underscore_operatorCTEName op
    rw [← hname] at hcount
    exact absurd (this _ _) (by simpa [cteName] using hcount)

/-! ## What a name stands for -/

attribute [local simp] standsFor

theorem standsFor_cons_of_some {earlier : List TraceOperand} {first : TraceOperand}
    (expr : TraceOperand) (h : standsFor earlier name = some first) :
    standsFor (expr :: earlier) name = some first := by
  simp [standsFor, h]

theorem standsFor_cons_of_none {earlier : List TraceOperand}
    (h : standsFor earlier (cteName expr) = none) :
    standsFor (expr :: earlier) (cteName expr) = some (withOperands (standsFor earlier) expr) := by
  simp [standsFor, h]

variable {seen : List TraceOperand}

theorem standsFor_eq_none_iff :
    standsFor seen name = none ↔ ∀ expr ∈ seen, cteName expr ≠ name := by
  induction seen with
  | nil => simp [standsFor]
  | cons expr earlier ih =>
    cases hearlier : standsFor earlier name with
    | some first =>
      have hne : ¬ ∀ e ∈ earlier, cteName e ≠ name := fun hall => by
        simp [ih.mpr hall] at hearlier
      simp only [standsFor, hearlier, List.mem_cons, forall_eq_or_imp]
      simp [hne]
    | none =>
      have hall := ih.mp hearlier
      simp only [standsFor, hearlier, List.mem_cons, forall_eq_or_imp]
      by_cases hname : cteName expr = name
      · simp [hname]
      · simp only [hname, if_false, ne_eq, not_false_eq_true, true_and, true_iff]
        exact hall

variable {t : TraceOperand}

/-- The first sub-expression of a name, with what its operands stood for then. -/
theorem standsFor_eq_some (h : standsFor seen name = some t) :
    ∃ later expr earlier, seen = later ++ expr :: earlier ∧ cteName expr = name ∧
      t = withOperands (standsFor earlier) expr := by
  induction seen with
  | nil => simp [standsFor] at h
  | cons expr earlier ih =>
    cases hearlier : standsFor earlier name with
    | some first =>
      rw [standsFor_cons_of_some expr hearlier] at h
      obtain ⟨later, expr', earlier', rfl, hname, rfl⟩ := ih (h ▸ hearlier)
      exact ⟨expr :: later, expr', earlier', rfl, hname, rfl⟩
    | none =>
      simp only [standsFor, hearlier] at h
      split at h
      · next hname =>
          exact ⟨[], expr, earlier, rfl, hname, (Option.some.inj h).symm⟩
      · simp at h

/-- A name stands for the query `up` only if it is that name. -/
theorem standsFor_eq_queryRef_iff (hparsed : ∀ e ∈ seen, Parsed e) {name other : String}
    (h : standsFor seen name = some t) (hcount : other.toList.count '_' < 2) :
   t = .queryRef other ↔ name = other := by
  obtain ⟨later, expr, earlier, rfl, hname, rfl⟩ := standsFor_eq_some h
  have hexpr : Parsed expr := hparsed expr (by simp)
  constructor
  · intro ht
    cases expr with
    | nil => exact absurd rfl hexpr.ne_nil
    | queryRef q =>
      simp only [withOperands, TraceOperand.queryRef.injEq] at ht
      rw [← hname, ← ht]
      rfl
    | operation op left right => simp [withOperands] at ht
  · rintro rfl
    rw [eq_queryRef_of_cteName hexpr hname hcount]
    rfl

theorem withOperands_ne_nil (h : expr ≠ .nil) (bound : String → Option TraceOperand) :
   withOperands bound expr ≠ .nil := by
  cases expr <;> simp_all [withOperands]

/-! ## The value of an expression read by names -/

/-- The value of a tree that hidden operands and unions of different columns make undefined. -/
def emittedSpans (all : Set Span) (leaf : String → Set Span) : TraceOperand → Option (Set Span)
  | .nil => some ∅
  | .queryRef name => some (leaf name)
  | .operation op left right =>
    if op = .not ∧ right = .nil then (emittedSpans all leaf left).map (outsideTracesOf all)
    else if op = .indirectDescendant ∧ (left = .queryRef "up" ∨ right = .queryRef "up") then none
    else if op = .or ∧ left.columns ≠ right.columns then none
    else (emittedSpans all leaf left).bind fun l =>
      (emittedSpans all leaf right).map fun r => operatorSpans all op l r

open Classical in
theorem emittedSpans_eq (all : Set Span) (leaf : String → Set Span) (t : TraceOperand) :
    emittedSpans all leaf t =
      if HidesOperand t ∨ MixesColumns t then none else some (denote all leaf t) := by
  induction t with
  | nil => simp [emittedSpans, HidesOperand, MixesColumns, denote]
  | queryRef name => simp [emittedSpans, HidesOperand, MixesColumns, denote]
  | operation op left right ihl ihr =>
    simp only [emittedSpans, denote, ihl, ihr]
    by_cases hunary : op = .not ∧ right = .nil
    · obtain ⟨rfl, rfl⟩ := hunary
      by_cases hl : HidesOperand left ∨ MixesColumns left <;>
        simp [HidesOperand, MixesColumns, hl]
    · by_cases hup : op = .indirectDescendant ∧
          (left = .queryRef "up" ∨ right = .queryRef "up")
      · have hfails : HidesOperand (.operation op left right) ∨
            MixesColumns (.operation op left right) := .inl (.inl hup)
        rw [if_pos hfails, if_neg hunary, if_pos hup]
      · by_cases hcolumns : op = .or ∧ left.columns ≠ right.columns
        · have hfails : HidesOperand (.operation op left right) ∨
              MixesColumns (.operation op left right) := .inr (.inl hcolumns)
          rw [if_pos hfails, if_neg hunary, if_neg hup, if_pos hcolumns]
        · -- nothing fails at the root, so the operands decide
          have hfails : HidesOperand (.operation op left right) ∨
              MixesColumns (.operation op left right) ↔
                (HidesOperand left ∨ MixesColumns left) ∨
                  (HidesOperand right ∨ MixesColumns right) := by
            simp only [HidesOperand, MixesColumns, hup, hcolumns, false_or]
            tauto
          simp only [hunary, hup, hcolumns, hfails, if_false]
          by_cases hl : HidesOperand left ∨ MixesColumns left <;>
            by_cases hr : HidesOperand right ∨ MixesColumns right <;> simp [hl, hr]

theorem emittedSpans_subset {all : Set Span} {leaf : String → Set Span}
    (hleaf : ∀ name, leaf name ⊆ all) {rows : Set Span} (h : rows ∈ emittedSpans all leaf t) :
   rows ⊆ all := by
  classical
  rw [emittedSpans_eq] at h
  split at h
  · simp at h
  · rw [← Option.mem_some_iff.mp h]
    exact denote_subset hleaf t

theorem namedSpans_subset (all : Set Span) (queries : List (String × TraceQuery))
    (name : String) : namedSpans all queries name ⊆ all := by
  unfold namedSpans
  split
  · exact subset_rfl
  · exact querySpans_subset all queries name

end Signoz.TraceOperator
