import Signoz.Transition.FilterConditions

/-!
# The migrated filter

`buildExpression` joins the conditions of the items of a v4 filter with its operator. What it writes
is parsed as the conjunction or disjunction of what the items say, in their order, exactly when each
item survives (`buildExpression_says_iff`).
-/

namespace Signoz.Transition

open FilterQuery FilterQuery.Lexer Lib.MaximalMunch

variable {F : Type}

/-! ## Filters -/

/-- An item of a v4 filter, in decoded JSON: its key is one token and not ambiguous, and no string
of its value is a variable. -/
structure V4Item (mc : MigrateCommon F) (dataSource : String) where
  fields : Obj F
  keyFields : Obj F
  key : String
  op : V4Operator
  value : V4Value F
  hasKey : fields.map? "key" = some keyFields
  hasOp : fields.string? "op" = some op.text
  hasValue : fields.get "value" = some value.any
  hasName : keyFields.string? "key" = some key
  isKey : IsToken .key key.toList
  unambiguous : key ∉ (mc.ambiguity.lookup dataSource).getD []
  noVariable : NoVariable value.values

namespace V4Item

variable {mc : MigrateCommon F} {dataSource : String} (item : V4Item mc dataSource)

def dataType : String := item.keyFields.stringD "dataType"

/-- The expression says what the item says. -/
def ReadBy (e : UnaryExpression) : Prop :=
  Transition.ReadBy mc item.key item.dataType item.op item.value.values e

def Survives : Prop := ItemSurvives mc item.dataType item.op item.value.values

/-- The text that the migration writes for the item. -/
def condition : String := buildCondition mc item.key item.op.text item.value.any item.keyFields

end V4Item

/-- The operator of a filter. -/
inductive Connective where
  | and
  | or

namespace Connective

def text : Connective → String
  | and => "AND"
  | or => "OR"

/-- The conjunction of some expressions. -/
def chainAnd (e : UnaryExpression) : List UnaryExpression → AndExpression
  | [] => .last e
  | f :: fs => .and e (chainAnd f fs)

/-- The disjunction of some expressions. -/
def chainOr (e : UnaryExpression) : List UnaryExpression → OrExpression
  | [] => .last (.last e)
  | f :: fs => .or (.last e) (chainOr f fs)

def chain (c : Connective) (e : UnaryExpression) (es : List UnaryExpression) : OrExpression :=
  match c with
  | and => .last (chainAnd e es)
  | or => chainOr e es

/-- One expression, or all of them in a group. -/
def expression (c : Connective) (e : UnaryExpression) : List UnaryExpression → OrExpression
  | [] => .last (.last e)
  | es => .last (.last (.plain (.group (c.chain e es))))

end Connective

/-- A text says what a filter says: none for a filter without items, and else one expression for
each item in order, joined. -/
def Says {mc : MigrateCommon F} {dataSource : String} (c : Connective) :
    List (V4Item mc dataSource) → String → Prop
  | [], text => text = ""
  | items, text => ∃ e es, List.Forall₂ V4Item.ReadBy items (e :: es) ∧
      parse text = some (c.expression e es)

/-! ## Items -/

section Items

variable {mc : MigrateCommon F} {dataSource : String}

theorem V4Item.condition_ne_empty (item : V4Item mc dataSource) : item.condition ≠ "" := by
  have hkey : item.key ≠ "" := by
    obtain ⟨-, -, -, -, hne⟩ := item.isKey.exists_rule
    exact fun h => hne (by rw [h]; rfl)
  rw [V4Item.condition]
  cases item.op
  case «in» | notIn =>
    simp only [buildCondition, V4Operator.text, buildInCondition]
    split <;> simp [hkey]
  all_goals simp [buildCondition, V4Operator.text, hkey]

theorem itemCondition_eq (item : V4Item mc dataSource) :
    itemCondition mc dataSource (.map item.fields) = some item.condition := by
  have hambiguous : ((mc.ambiguity.lookup dataSource).getD []).contains item.key = false := by
    rw [List.contains_eq_mem]
    exact decide_eq_false item.unambiguous
  have hne := item.condition_ne_empty
  rw [V4Item.condition] at hne ⊢
  simp only [itemCondition, Any.map?, item.hasKey, item.hasOp, item.hasValue, item.hasName,
    hambiguous, Option.bind_eq_bind, Option.bind_some, if_pos hne]

theorem readsUnary_condition (hnumber : mc.fmt.WritesNumbers) {item : V4Item mc dataSource}
    (h : item.Survives) :
    ∃ e, item.ReadBy e ∧ ∀ rest, (∀ c ∈ rest.head?, isConditionEnd c) →
      ReadsUnary (scan (item.condition.toList ++ rest)) e (scan rest) :=
  readsUnary_of_survives hnumber item.isKey item.noVariable h

theorem V4Item.survives (hnumber : mc.fmt.WritesNumbers) (hscans : mc.fmt.ScansNumbers)
    {item : V4Item mc dataSource} {e : UnaryExpression} {rest : List Char} {ts : List Token}
    (hend : ∀ c ∈ rest.head?, isConditionEnd c) (hread : item.ReadBy e)
    (h : ReadsUnary (scan (item.condition.toList ++ rest)) e ts) : item.Survives :=
  survives_of_readsUnary hnumber hscans item.isKey item.noVariable hend hread h

end Items

/-! ## Chains of conditions -/

namespace Connective

def token : Connective → Token
  | and => ⟨.and, "AND"⟩
  | or => ⟨.or, "OR"⟩

theorem scan_token (c : Connective) (rest : List Char) :
    scan (c.text.toList ++ ' ' :: rest) = c.token :: scan rest := by
  cases c
  case and =>
    have hand : IsToken .and ['A', 'N', 'D'] := by decide
    change scan (['A', 'N', 'D'] ++ ' ' :: rest) = _
    rw [scan_word hand (by decide) (by rintro _ ⟨⟩; rfl), scan_blank]
    rfl
  case or =>
    have hor : IsToken .or ['O', 'R'] := by decide
    change scan (['O', 'R'] ++ ' ' :: rest) = _
    rw [scan_word hor (by decide) (by rintro _ ⟨⟩; rfl), scan_blank]
    rfl

end Connective

section Chains

variable {c : Connective} {e e' : UnaryExpression} {es : List UnaryExpression}
  {ts ts' rest : List Token}

theorem exists_readsUnary_of_chain (h : ReadsOr ts (c.chain e es) rest) :
    ∃ ts', ReadsUnary ts e ts' := by
  have hand : ∀ {r : List Token}, ReadsAnd ts (Connective.chainAnd e es) r →
      ∃ ts', ReadsUnary ts e ts' := by
    intro r h
    cases es with
    | nil => cases h with | last h _ => exact ⟨_, h⟩
    | cons e' es => cases h with | and h _ _ | next h _ _ _ => exact ⟨_, h⟩
  have hlast : ∀ {r : List Token}, ReadsAnd ts (.last e) r → ∃ ts', ReadsUnary ts e ts' := by
    intro r h
    cases h with | last h _ => exact ⟨_, h⟩
  cases c with
  | and => cases h with | last h _ => exact hand h
  | or =>
    cases es with
    | nil => cases h with | last h _ => exact hlast h
    | cons e' es => cases h with | or h _ _ => exact hlast h

/-- A chain of one ends at a bracket. -/
theorem readsOr_chain_nil {t : Token} (h : ReadsUnary ts e (t :: rest)) (ht : t.type = .rparen) :
    ReadsOr ts (c.chain e []) (t :: rest) := by
  have hend : t.type ≠ .and ∧ ¬ t.startsUnary := by
    rw [Token.startsUnary, Token.function?, ht]
    decide
  have hor : t.type ≠ .or := by
    rw [ht]
    decide
  have hlast : ReadsOr ts (.last (.last e)) (t :: rest) :=
    .last (.last h (by rintro _ ⟨⟩; exact hend)) (by rintro _ ⟨⟩; exact hor)
  cases c with
  | and => exact hlast
  | or => exact hlast

/-- Behind its first expression and the connective, a chain is read as the rest of it. -/
theorem readsOr_chain_cons (h : ReadsUnary ts e (c.token :: ts')) :
    ReadsOr ts (c.chain e (e' :: es)) rest ↔ ReadsOr ts' (c.chain e' es) rest := by
  cases c with
  | and =>
    constructor
    · intro hchain
      cases hchain with
      | last hand hend =>
        cases hand with
        | and h' _ hrest =>
          obtain ⟨-, hts⟩ := List.cons.inj (h'.unique h).2
          exact .last (hts ▸ hrest) hend
        | next h' hne _ _ =>
          obtain ⟨rfl, -⟩ := List.cons.inj (h'.unique h).2
          exact absurd rfl hne
    · intro hchain
      cases hchain with
      | last hrest hend => exact .last (.and h rfl hrest) hend
  | or =>
    constructor
    · intro hchain
      cases hchain with
      | or hlast _ hrest =>
        cases hlast with
        | last h' _ =>
          obtain ⟨-, hts⟩ := List.cons.inj (h'.unique h).2
          exact hts ▸ hrest
    · intro hrest
      exact .or (.last h (by rintro _ ⟨⟩; decide)) rfl hrest

end Chains

/-! ## The filter -/

section Filter

variable {mc : MigrateCommon F} {dataSource : String} {c : Connective}
  {item item' : V4Item mc dataSource} {items : List (V4Item mc dataSource)}

/-- The conditions of items, joined. -/
def joined (c : Connective) (items : List (V4Item mc dataSource)) : List Char :=
  ((" " ++ c.text ++ " ").intercalate (items.map V4Item.condition)).toList

theorem joined_one : joined c [item] = item.condition.toList := by
  rw [joined, List.map_singleton, String.intercalate_singleton]

theorem joined_cons :
    joined c (item :: item' :: items) =
      item.condition.toList ++ ' ' :: (c.text.toList ++ ' ' :: joined c (item' :: items)) := by
  rw [joined, joined, List.map_cons, List.map_cons, String.intercalate_cons_cons]
  simp [String.toList_append]

theorem buildExpression_eq (items : List (V4Item mc dataSource)) :
    buildExpression mc (items.map fun i => .map i.fields) c.text dataSource =
      match items with
      | [] => ""
      | [item] => item.condition
      | items => String.ofList ('(' :: (joined c items ++ [')'])) := by
  have hconditions : (items.map fun i => Any.map i.fields).filterMap
      (itemCondition mc dataSource) = items.map V4Item.condition := by
    rw [List.filterMap_map, ← List.filterMap_eq_map]
    congr 1
    funext item
    exact itemCondition_eq item
  rw [buildExpression, hconditions]
  match items with
  | [] | [item] => rfl
  | item :: item' :: items =>
    refine String.toList_inj.1 ?_
    simp [String.toList_append, joined]

theorem scan_connective (c : Connective) (rest : List Char) :
    scan (' ' :: (c.text.toList ++ ' ' :: rest)) = c.token :: scan rest := by
  rw [scan_blank, c.scan_token]

theorem scan_rparen : scan [')'] = [⟨.rparen, ")"⟩] :=
  scan_punctuation (show (TokenType.rparen, ')') ∈ punctuation by decide) []

/-- The conditions of items that survive are read as a chain of what they say. -/
theorem readsOr_of_survives (hnumber : mc.fmt.WritesNumbers)
    (h : ∀ i ∈ item :: items, i.Survives) :
    ∃ e es, List.Forall₂ V4Item.ReadBy (item :: items) (e :: es) ∧
      ReadsOr (scan (joined c (item :: items) ++ [')'])) (c.chain e es) [⟨.rparen, ")"⟩] := by
  induction items generalizing item with
  | nil =>
    obtain ⟨e, hread, hreads⟩ := readsUnary_condition hnumber (h item List.mem_cons_self)
    have hunary := hreads [')'] (by rintro _ ⟨⟩; rfl)
    rw [scan_rparen] at hunary
    refine ⟨e, [], .cons hread .nil, ?_⟩
    rw [joined_one]
    exact readsOr_chain_nil hunary rfl
  | cons item' items ih =>
    obtain ⟨hitem, hitems⟩ := List.forall_mem_cons.1 h
    obtain ⟨e, hread, hreads⟩ := readsUnary_condition hnumber hitem
    obtain ⟨e', es, hread', hreads'⟩ := ih hitems
    refine ⟨e, e' :: es, .cons hread hread', ?_⟩
    have hunary := hreads (' ' :: (c.text.toList ++ ' ' :: (joined c (item' :: items) ++ [')'])))
      (by rintro _ ⟨⟩; rfl)
    rw [scan_connective] at hunary
    rw [joined_cons]
    simp only [List.append_assoc, List.cons_append]
    exact (readsOr_chain_cons hunary).2 hreads'

/-- Items whose conditions are read as a chain of what they say survive. -/
theorem survives_of_readsOr (hnumber : mc.fmt.WritesNumbers) (hscans : mc.fmt.ScansNumbers)
    {e : UnaryExpression} {es : List UnaryExpression} {ts : List Token}
    (hread : List.Forall₂ V4Item.ReadBy (item :: items) (e :: es))
    (h : ReadsOr (scan (joined c (item :: items) ++ [')'])) (c.chain e es) ts) :
    ∀ i ∈ item :: items, i.Survives := by
  induction items generalizing item e es with
  | nil =>
    obtain ⟨hread, -⟩ := List.forall₂_cons.1 hread
    obtain ⟨ts', hunary⟩ := exists_readsUnary_of_chain h
    rw [joined_one] at hunary
    intro i hi
    obtain rfl := List.mem_singleton.1 hi
    exact i.survives hnumber hscans (by rintro _ ⟨⟩; rfl) hread hunary
  | cons item' items ih =>
    obtain ⟨hread, hread'⟩ := List.forall₂_cons.1 hread
    obtain ⟨ts', hunary⟩ := exists_readsUnary_of_chain h
    rw [joined_cons] at h hunary
    simp only [List.append_assoc, List.cons_append] at h hunary
    have hitem : item.Survives := item.survives hnumber hscans (by rintro _ ⟨⟩; rfl) hread hunary
    -- An item that survives is read up to the connective.
    obtain ⟨e₁, -, hreads⟩ := readsUnary_condition hnumber hitem
    have hunary₁ := hreads
      (' ' :: (c.text.toList ++ ' ' :: (joined c (item' :: items) ++ [')'])))
      (by rintro _ ⟨⟩; rfl)
    obtain ⟨rfl, rfl⟩ := hunary.unique hunary₁
    rw [scan_connective] at hunary
    cases es with
    | nil => cases hread'
    | cons e' es =>
      exact List.forall_mem_cons.2 ⟨hitem, ih hread' ((readsOr_chain_cons hunary).1 h)⟩

theorem parse_group_iff {text : List Char} {e : OrExpression} :
    parse (String.ofList ('(' :: (text ++ [')']))) =
        some (.last (.last (.plain (.group e)))) ↔
      ∃ t : Token, t.type = .rparen ∧ ReadsOr (scan (text ++ [')'])) e [t] := by
  have hscan : scan ('(' :: (text ++ [')'])) = ⟨.lparen, "("⟩ :: scan (text ++ [')']) :=
    scan_punctuation (show (TokenType.lparen, '(') ∈ punctuation by decide) _
  rw [parse, tokens, String.toList_ofList, hscan, parseQuery_eq_some_iff]
  constructor
  · intro h
    cases h with
    | last hand _ =>
      cases hand with
      | last hunary _ =>
        cases hunary with
        | plain _ hprimary =>
          cases hprimary with
          | group _ h ht => exact ⟨_, ht, h⟩
  · rintro ⟨t, ht, h⟩
    exact .last (.last (.plain nofun (.group rfl h ht)) nofun) nofun

theorem says_of_survives (hnumber : mc.fmt.WritesNumbers) (h : ∀ i ∈ items, i.Survives) :
    Says c items (buildExpression mc (items.map fun i => .map i.fields) c.text dataSource) := by
  rw [buildExpression_eq]
  match items with
  | [] => rfl
  | [item] =>
    obtain ⟨e, hread, hreads⟩ := readsUnary_condition hnumber (h item List.mem_cons_self)
    have hunary := hreads [] nofun
    rw [List.append_nil] at hunary
    refine ⟨e, [], .cons hread .nil, parseQuery_eq_some_iff.2 ?_⟩
    exact .last (.last hunary nofun) nofun
  | item :: item' :: items =>
    obtain ⟨e, es, hread, hreads⟩ := readsOr_of_survives (c := c) hnumber h
    refine ⟨e, es, hread, ?_⟩
    cases hread with
    | cons _ hread => cases hread with | cons _ _ => exact parse_group_iff.2 ⟨_, rfl, hreads⟩

theorem survives_of_says (hnumber : mc.fmt.WritesNumbers) (hscans : mc.fmt.ScansNumbers)
    (h : Says c items
      (buildExpression mc (items.map fun i => .map i.fields) c.text dataSource)) :
    ∀ i ∈ items, i.Survives := by
  rw [buildExpression_eq] at h
  match items with
  | [] => exact nofun
  | [item] =>
    obtain ⟨e, es, hread, hparse⟩ := h
    obtain ⟨hitem, hnil⟩ := List.forall₂_cons.1 hread
    cases hnil
    have hreads : ReadsOr (scan item.condition.toList) (.last (.last e)) [] :=
      parseQuery_eq_some_iff.1 hparse
    rw [← List.append_nil item.condition.toList] at hreads
    cases hreads with
    | last hand _ =>
      cases hand with
      | last hunary _ =>
        intro i hi
        obtain rfl := List.mem_singleton.1 hi
        have hend : ∀ a ∈ ([] : List Char).head?, isConditionEnd a := nofun
        exact i.survives hnumber hscans hend hitem hunary
  | item :: item' :: items =>
    obtain ⟨e, es, hread, hparse⟩ := h
    obtain ⟨t, -, hreads⟩ : ∃ t : Token, t.type = .rparen ∧
        ReadsOr (scan (joined c (item :: item' :: items) ++ [')'])) (c.chain e es) [t] := by
      cases hread with
      | cons _ hread => cases hread with | cons _ _ => exact parse_group_iff.1 hparse
    exact survives_of_readsOr hnumber hscans hread hreads

/-- The migrated filter says what the filter says exactly when each of its items survives: its
lists have operators for lists, and its strings come through the quoting or need none. -/
theorem buildExpression_says_iff (hnumber : mc.fmt.WritesNumbers) (hscans : mc.fmt.ScansNumbers)
    (c : Connective) (items : List (V4Item mc dataSource)) :
    Says c items (buildExpression mc (items.map fun i => .map i.fields) c.text dataSource) ↔
      ∀ i ∈ items, i.Survives := by
  constructor
  · intro h
    exact survives_of_says hnumber hscans h
  · intro h
    exact says_of_survives hnumber h

end Filter

/-! ## Two filters -/

/-- `%v` of whole numbers, and scanning of a number that starts with a digit. -/
def wholeNumbers : MigrateCommon Int where
  ambiguity := []
  fmt :=
    { sprintV := fun
        | .number x => toString x
        | _ => ""
      sprintS := fun _ => ""
      scansFloat := fun s => (s.toList.dropWhile isSpace).head?.any Char.isDigit }

theorem wholeNumbers_writes : wholeNumbers.fmt.WritesNumbers := isToken_int

theorem wholeNumbers_scans : wholeNumbers.fmt.ScansNumbers := by
  intro s h
  obtain ⟨c, hc, hdigit⟩ := (Option.any_eq_true _ _).1 h
  exact ⟨c, hc, .inr (.inl hdigit)⟩

/-- An item with a string, of key `path`. -/
def pathItem (value : String) (h : isVariable value = false) : V4Item wholeNumbers "logs" where
  fields := [("key", .map [("key", .string "path"), ("dataType", .string "string")]),
    ("op", .string "="), ("value", .string value)]
  keyFields := [("key", .string "path"), ("dataType", .string "string")]
  key := "path"
  op := .equal
  value := .scalar (.string value)
  hasKey := rfl
  hasOp := rfl
  hasValue := rfl
  hasName := rfl
  isKey := by decide
  unambiguous := by decide
  noVariable := by
    intro t ht
    cases List.mem_singleton.1 ht
    exact h

theorem pathItem_survives_iff {value : String} (h : isVariable value = false) :
    (pathItem value h).Survives ↔ survivesQuoting value.toList := by
  have hdata : (pathItem value h).dataType = "string" := rfl
  have hnumeric : isNumericType "string" = false := by decide
  rw [V4Item.Survives, hdata]
  simp [ItemSurvives, pathItem, V4Operator.isExists, V4Operator.isCall, V4Value.values,
    V4Value.first, V4Value.rest, V4Scalar.Survives, hnumeric]

/-- An item with a list of numbers, of key `code`. -/
def codeItem : V4Item wholeNumbers "logs" where
  fields := [("key", .map [("key", .string "code"), ("dataType", .string "int64")]),
    ("op", .string "in"), ("value", .list [.number 404, .number 500])]
  keyFields := [("key", .string "code"), ("dataType", .string "int64")]
  key := "code"
  op := .in
  value := .list (.number 404) [.number 500]
  hasKey := rfl
  hasOp := rfl
  hasValue := rfl
  hasName := rfl
  isKey := by decide
  unambiguous := by decide
  noVariable := by
    intro t ht
    simp [V4Value.values, V4Value.first, V4Value.rest] at ht

theorem buildExpression_says_quoted :
    Says .and [pathItem "it's" (by decide), codeItem]
      (buildExpression wholeNumbers
        [.map (pathItem "it's" (by decide)).fields, .map codeItem.fields] "AND" "logs") := by
  have hpath : (pathItem "it's" (by decide)).Survives :=
    (pathItem_survives_iff _).2 (by decide)
  have hcode : codeItem.Survives := by
    refine .inr ⟨fun _ => .inl rfl, fun s hs => ?_⟩
    rcases List.mem_pair.1 hs with rfl | rfl <;> trivial
  have hsurvives : ∀ i ∈ [pathItem "it's" (by decide), codeItem], i.Survives :=
    List.forall_mem_cons.2 ⟨hpath, List.forall_mem_singleton.2 hcode⟩
  exact (buildExpression_says_iff wholeNumbers_writes wholeNumbers_scans .and _).2 hsurvives

/-- The backslash at the end of the string takes the quote behind it. -/
theorem buildExpression_backslash :
    ¬ Says .and [pathItem "C:\\" (by decide)]
      (buildExpression wholeNumbers [.map (pathItem "C:\\" (by decide)).fields] "AND" "logs") := by
  intro h
  have hsurvives := survives_of_says wholeNumbers_writes wholeNumbers_scans h
    (pathItem "C:\\" (by decide)) List.mem_cons_self
  exact absurd ((pathItem_survives_iff _).1 hsurvives) (by decide)

end Signoz.Transition
