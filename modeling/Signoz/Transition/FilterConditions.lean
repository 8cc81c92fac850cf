import Signoz.Transition.FilterItems

/-!
# The condition of a v4 filter item

`ReadBy` is the expression that says what an item says: its key, its operator and its value, where
`in` and `nin` over one value are a comparison with it. The condition that the migration writes for
an item is read as such an expression exactly when the item survives (`readsUnary_of_survives`,
`survives_of_readsUnary`).
-/

namespace Signoz.Transition

open FilterQuery FilterQuery.Lexer Lib Lib.MaximalMunch

variable {F : Type}

/-! ## Operators -/

inductive V4Operator where
  | equal
  | notEqual
  | greaterThan
  | greaterThanOrEq
  | lessThan
  | lessThanOrEq
  | in
  | notIn
  | like
  | notLike
  | contains
  | notContains
  | regex
  | notRegex
  | exists
  | notExists
  | has
  | notHas

namespace V4Operator

/-- The operator in a v4 filter. -/
def text : V4Operator → String
  | equal => "="
  | notEqual => "!="
  | greaterThan => ">"
  | greaterThanOrEq => ">="
  | lessThan => "<"
  | lessThanOrEq => "<="
  | .in => "in"
  | notIn => "nin"
  | like => "like"
  | notLike => "nlike"
  | contains => "contains"
  | notContains => "ncontains"
  | regex => "regex"
  | notRegex => "nregex"
  | .exists => "exists"
  | notExists => "nexists"
  | has => "has"
  | notHas => "nhas"

/-- The comparison with one value. -/
def operation : V4Operator → Option (Value → Operation)
  | equal | .in => some .equals
  | notEqual | notIn => some .notEquals
  | greaterThan => some .gt
  | greaterThanOrEq => some .ge
  | lessThan => some .lt
  | lessThanOrEq => some .le
  | like => some (.like false)
  | notLike => some (.like true)
  | contains => some (.contains false)
  | notContains => some (.contains true)
  | regex => some (.regexp false)
  | notRegex => some (.regexp true)
  | .exists | notExists | has | notHas => none

/-- The comparison with a list. -/
def listOperation : V4Operator → Option (InClause → Operation)
  | .in => some .inClause
  | notIn => some .notInClause
  | _ => none

/-- The operators of `has`. -/
def isCall : V4Operator → Bool
  | has | notHas => true
  | _ => false

def isExists : V4Operator → Bool
  | .exists | notExists => true
  | _ => false

end V4Operator

/-! ## What an item says -/

variable (mc : MigrateCommon F)

/-- The parameter of `has` that says what a value says. -/
inductive ParamReadBy (dataType : String) : List (V4Scalar F) → FunctionParam → Prop
  | value {s : V4Scalar F} {v : Value} :
      s.Reads mc dataType (readValue v) → ParamReadBy dataType [s] (.value v)
  | array {l : List (V4Scalar F)} {vs : ValueList} :
      2 ≤ l.length → List.Forall₂ (V4Scalar.Reads mc dataType) l (vs.allValue.map readValue) →
      ParamReadBy dataType l (.array vs)

/-- The expression that says what a key, an operator and a value say. -/
inductive ReadBy (key dataType : String) :
    V4Operator → List (V4Scalar F) → UnaryExpression → Prop
  | comparison {op : V4Operator} {f : Value → Operation} {s : V4Scalar F} {v : Value} :
      op.operation = some f → s.Reads mc dataType (readValue v) →
      ReadBy key dataType op [s] (.plain (.comparison ⟨key, f v⟩))
  | list {op : V4Operator} {f : InClause → Operation} {l : List (V4Scalar F)} {vs : ValueList} :
      op.listOperation = some f → 2 ≤ l.length →
      List.Forall₂ (V4Scalar.Reads mc dataType) l (vs.allValue.map readValue) →
      ReadBy key dataType op l (.plain (.comparison ⟨key, f (.list vs)⟩))
  | exists {l : List (V4Scalar F)} :
      ReadBy key dataType .exists l (.plain (.comparison ⟨key, .exists false⟩))
  | notExists {l : List (V4Scalar F)} :
      ReadBy key dataType .notExists l (.plain (.comparison ⟨key, .exists true⟩))
  | has {l : List (V4Scalar F)} {p : FunctionParam} :
      ParamReadBy mc dataType l p →
      ReadBy key dataType .has l (.plain (.functionCall ⟨.has, .key key, [p]⟩))
  | notHas {l : List (V4Scalar F)} {p : FunctionParam} :
      ParamReadBy mc dataType l p →
      ReadBy key dataType .notHas l (.not (.functionCall ⟨.has, .key key, [p]⟩))

/-- The text of the condition is read as what it says: a list has an operator for lists, and each
scalar survives. The value does not matter to `exists`. -/
def ItemSurvives (dataType : String) (op : V4Operator) (l : List (V4Scalar F)) : Prop :=
  op.isExists ∨
    (2 ≤ l.length → op.listOperation.isSome ∨ op.isCall) ∧
      ∀ s ∈ l, s.Survives mc dataType (op.isCall && l.length = 1)

/-! ## Lists of values -/

variable {mc}

/-- No string of a list is a variable. -/
def NoVariable (l : List (V4Scalar F)) : Prop := ∀ t, .string t ∈ l → isVariable t = false

/-- The text of a list of values, from behind the bracket on. -/
def listText (mc : MigrateCommon F) (dataType : String) (l : List (V4Scalar F))
    (rest : List Char) : List Char :=
  (", ".intercalate (l.map (formatScalar mc dataType))).toList ++ ']' :: rest

theorem listText_one (dataType : String) (s : V4Scalar F) (rest : List Char) :
    listText mc dataType [s] rest = (formatScalar mc dataType s).toList ++ ']' :: rest := by
  rw [listText, List.map_singleton, String.intercalate_singleton]

theorem listText_cons (dataType : String) (s s' : V4Scalar F) (l : List (V4Scalar F))
    (rest : List Char) :
    listText mc dataType (s :: s' :: l) rest =
      (formatScalar mc dataType s).toList ++ ',' :: ' ' :: listText mc dataType (s' :: l) rest := by
  rw [listText, listText, List.map_cons, List.map_cons, String.intercalate_cons_cons]
  simp [String.toList_append]

theorem scan_comma (rest : List Char) : scan (',' :: ' ' :: rest) = ⟨.comma, ","⟩ :: scan rest := by
  rw [scan_punctuation (show (TokenType.comma, ',') ∈ punctuation by decide), scan_blank]

theorem scan_rbrack (rest : List Char) : scan (']' :: rest) = ⟨.rbrack, "]"⟩ :: scan rest :=
  scan_punctuation (by decide) rest

variable {dataType : String} {s : V4Scalar F}

/-- The values of a list whose scalars survive are read one by one. -/
theorem parse_list_of_survives (hnumber : mc.fmt.WritesNumbers) {l : List (V4Scalar F)}
    (hvar : NoVariable (s :: l)) (h : ∀ x ∈ s :: l, x.Survives mc dataType false) :
    ∃ v vs, List.Forall₂ (V4Scalar.Reads mc dataType) (s :: l) ((v :: vs).map readValue) ∧
      ∀ rest, ∃ ts, parseValue (scan (listText mc dataType (s :: l) rest)) = some (v, ts) ∧
        parseValues ts = some (vs, ⟨.rbrack, "]"⟩ :: scan rest) := by
  induction l generalizing s with
  | nil =>
    obtain ⟨t, v, hv, hread, -, hscan⟩ := scan_of_survives hnumber
      (fun t ht => hvar t (ht ▸ List.mem_cons_self)) (h s List.mem_cons_self)
    refine ⟨v, [], .cons hread .nil, fun rest => ?_⟩
    refine ⟨⟨.rbrack, "]"⟩ :: scan rest, ?_, parseValues_of_ne_comma (c := ⟨.rbrack, "]"⟩) nofun _⟩
    rw [listText_one, hscan _ (by rintro _ ⟨⟩; rfl), scan_rbrack, parseValue_iff.2 ⟨t, rfl, hv⟩]
  | cons s' l ih =>
    obtain ⟨t, v, hv, hread, -, hscan⟩ := scan_of_survives hnumber
      (fun t ht => hvar t (ht ▸ List.mem_cons_self)) (h s List.mem_cons_self)
    obtain ⟨v', vs, hreads, hparse⟩ := ih (fun t ht => hvar t (List.mem_cons_of_mem _ ht))
      (fun x hx => h x (List.mem_cons_of_mem _ hx))
    refine ⟨v, v' :: vs, .cons hread hreads, fun rest => ?_⟩
    obtain ⟨ts, hfirst, hrest⟩ := hparse rest
    refine ⟨⟨.comma, ","⟩ :: scan (listText mc dataType (s' :: l) rest), ?_,
      (parseValues_comma rfl).2 ⟨ts, hfirst, hrest⟩⟩
    rw [listText_cons, hscan _ (by rintro _ ⟨⟩; rfl), scan_comma, parseValue_iff.2 ⟨t, rfl, hv⟩]

/-- Scalars that are read one by one survive. -/
theorem survives_of_parse_list (hnumber : mc.fmt.WritesNumbers) (hscans : mc.fmt.ScansNumbers)
    {l : List (V4Scalar F)} (hvar : NoVariable (s :: l)) {v : Value} {vs : List Value}
    {rest : List Char} {ts ts' : List Token}
    (hreads : List.Forall₂ (V4Scalar.Reads mc dataType) (s :: l) ((v :: vs).map readValue))
    (hfirst : parseValue (scan (listText mc dataType (s :: l) rest)) = some (v, ts))
    (hrest : parseValues ts = some (vs, ts')) : ∀ x ∈ s :: l, x.Survives mc dataType false := by
  induction l generalizing s v vs ts with
  | nil =>
    obtain ⟨hread, -⟩ := List.forall₂_cons.1 hreads
    obtain ⟨t, ht, hv⟩ := parseValue_iff.1 hfirst
    rw [listText_one] at ht
    intro x hx
    obtain rfl := List.mem_singleton.1 hx
    exact survives_of_scan hscans (fun t ht => hvar t (ht ▸ List.mem_cons_self))
      (by rintro _ ⟨⟩; rfl) ht hv hread nofun
  | cons s' l ih =>
    obtain ⟨hread, hreads⟩ := List.forall₂_cons.1 hreads
    obtain ⟨t, ht, hv⟩ := parseValue_iff.1 hfirst
    rw [listText_cons] at ht
    have hvar' : ∀ t, s = .string t → isVariable t = false :=
      fun t ht => hvar t (ht ▸ List.mem_cons_self)
    have hs : s.Survives mc dataType false :=
      survives_of_scan hscans hvar' (by rintro _ ⟨⟩; rfl) ht hv hread nofun
    -- So its token is known, and what follows it.
    obtain ⟨t', -, -, -, -, hscan⟩ := scan_of_survives hnumber hvar' hs
    rw [hscan _ (by rintro _ ⟨⟩; rfl), scan_comma] at ht
    obtain ⟨-, rfl⟩ := List.cons.inj ht
    cases vs with
    | nil => cases hreads
    | cons v' vs =>
      obtain ⟨ts₁, hfirst', hrest'⟩ := (parseValues_comma rfl).1 hrest
      have hl := ih (fun t ht => hvar t (List.mem_cons_of_mem _ ht)) hreads hfirst' hrest'
      exact List.forall_mem_cons.2 ⟨hs, hl⟩

/-! ## The text of a condition -/

namespace V4Operator

/-- The words of the comparison with one value. -/
def words : V4Operator → List (TokenType × List Char)
  | equal | .in => [(.equals, ['='])]
  | notEqual | notIn => [(.notEquals, ['!', '='])]
  | greaterThan => [(.gt, ['>'])]
  | greaterThanOrEq => [(.ge, ['>', '='])]
  | lessThan => [(.lt, ['<'])]
  | lessThanOrEq => [(.le, ['<', '='])]
  | like => [(.like, ['L', 'I', 'K', 'E'])]
  | notLike => [(.not, ['N', 'O', 'T']), (.like, ['L', 'I', 'K', 'E'])]
  | contains => [(.contains, ['C', 'O', 'N', 'T', 'A', 'I', 'N', 'S'])]
  | notContains => [(.not, ['N', 'O', 'T']), (.contains, ['C', 'O', 'N', 'T', 'A', 'I', 'N', 'S'])]
  | regex => [(.regexp, ['R', 'E', 'G', 'E', 'X', 'P'])]
  | notRegex => [(.not, ['N', 'O', 'T']), (.regexp, ['R', 'E', 'G', 'E', 'X', 'P'])]
  | .exists | notExists | has | notHas => []

/-- The words of the comparison with a list. -/
def listWords : V4Operator → List (TokenType × List Char)
  | notIn => [(.not, ['N', 'O', 'T']), (.in, ['I', 'N'])]
  | _ => [(.in, ['I', 'N'])]

end V4Operator

attribute [local simp] buildCondition

/-- A key, words and a value, with blanks between them. -/
def conditionText (key : List Char) (words : List (TokenType × List Char)) (value : List Char) :
    List Char :=
  key ++ ' ' :: (words.flatMap (fun w => w.2 ++ [' ']) ++ value)

variable {op : V4Operator}

theorem toList_buildCondition (hop : op.operation.isSome) (hlist : op.listOperation = none)
    (key : String) (value : Any F) (keyMetadata : Obj F) :
    (buildCondition mc key op.text value keyMetadata).toList = conditionText key.toList op.words
      (formatValue mc (keyMetadata.stringD "dataType") value).toList := by
  cases op
  case «in» | notIn => cases hlist
  case «exists» | notExists | has | notHas => cases hop
  all_goals simp [buildCondition, V4Operator.text, conditionText, V4Operator.words]

theorem toList_buildCondition_in (hlist : op.listOperation.isSome) (key : String) (value : Any F)
    (keyMetadata : Obj F) {text : String}
    (htext : formatValue mc (keyMetadata.stringD "dataType") value = text) :
    (buildCondition mc key op.text value keyMetadata).toList =
      conditionText key.toList
        (if !"[".toList.isPrefixOf text.toList && !isVariable text then op.words else op.listWords)
        text.toList := by
  cases op
  case «in» | notIn =>
    simp only [buildCondition, V4Operator.text, htext, buildInCondition]
    split <;> simp [conditionText, V4Operator.words, V4Operator.listWords]
  all_goals cases hlist

/-! ## The tokens of a condition -/

def wordTokens (words : List (TokenType × List Char)) : List Token :=
  words.map fun w => ⟨w.1, String.ofList w.2⟩

theorem scan_words {words : List (TokenType × List Char)}
    (h : ∀ w ∈ words, w ∈ signs ∨ IsToken w.1 w.2 ∧ w.1 ∉ delimiters) (rest : List Char) :
    scan (words.flatMap (fun w => w.2 ++ [' ']) ++ rest) = wordTokens words ++ scan rest := by
  induction words with
  | nil => rfl
  | cons w words ih =>
    obtain ⟨hw, hwords⟩ := List.forall_mem_cons.1 h
    have hfirst : ∀ rest, scan (w.2 ++ ' ' :: rest) = ⟨w.1, String.ofList w.2⟩ :: scan rest := by
      intro rest
      rcases hw with hw | ⟨hw, htype⟩
      · exact scan_sign hw rest
      · rw [scan_word hw htype (by rintro _ ⟨⟩; rfl), scan_blank]
    rw [List.flatMap_cons, List.append_assoc, List.append_assoc, List.singleton_append, hfirst,
      ih hwords]
    rfl

theorem words_scan (op : V4Operator) :
    (∀ w ∈ op.words, w ∈ signs ∨ IsToken w.1 w.2 ∧ w.1 ∉ delimiters) ∧
      ∀ w ∈ op.listWords, w ∈ signs ∨ IsToken w.1 w.2 ∧ w.1 ∉ delimiters := by
  cases op <;> decide

theorem scan_conditionText {key : List Char} (hkey : IsToken .key key)
    {words : List (TokenType × List Char)}
    (hwords : ∀ w ∈ words, w ∈ signs ∨ IsToken w.1 w.2 ∧ w.1 ∉ delimiters)
    (value rest : List Char) :
    scan (conditionText key words value ++ rest) =
      ⟨.key, String.ofList key⟩ :: (wordTokens words ++ scan (value ++ rest)) := by
  rw [conditionText, List.append_assoc, List.cons_append, List.append_assoc,
    scan_word hkey (by decide) (by rintro _ ⟨⟩; rfl), scan_blank, scan_words hwords]

theorem parseOperation_words {f : Value → Operation} (hop : op.operation = some f) (ts : List Token) :
   parseOperation (wordTokens op.words ++ ts) =
      (parseValue ts).map fun x => (f x.1, x.2) := by
  cases op
  case «exists» | notExists | has | notHas => cases hop
  all_goals
    cases hop
    rfl

theorem parseOperation_listWords {f : InClause → Operation} (hop : op.listOperation = some f)
    (ts : List Token) :
    parseOperation (wordTokens op.listWords ++ ts) =
      (parseIn ts).map fun x => (f x.1, x.2) := by
  cases op
  case «in» | notIn =>
    cases hop
    rfl
  all_goals cases hop

/-! ## Single values -/

theorem head?_trimSpace {c : Char} {cs : List Char} (hc : isSpace c = false) :
    (trimSpace (c :: cs)).head? = some c := by
  rw [trimSpace, List.dropWhile_cons_of_neg (by rw [hc]; exact Bool.false_ne_true),
    List.head?_reverse, List.reverse_cons, List.dropWhile_append]
  split
  · rw [List.dropWhile_cons_of_neg (by rw [hc]; exact Bool.false_ne_true)]
    rfl
  · exact List.getLast?_concat

theorem isVariable_of_head {s : String} {c : Char} (hc : s.toList.head? = some c)
    (hspace : isSpace c = false) (hopen : c ∉ ['\x7b', '$', '[']) : isVariable s = false := by
  obtain ⟨cs, hcs⟩ := List.head?_eq_some_iff.1 hc
  have hhead : (trimSpace (c :: cs)).head? = some c := head?_trimSpace hspace
  obtain ⟨trimmed, htrim⟩ := List.head?_eq_some_iff.1 hhead
  have hne : ∀ d ∈ ['\x7b', '$', '['], (d == c) = false :=
    fun d hd => beq_eq_false_iff_ne.2 fun heq => hopen (heq ▸ hd)
  have hno : ∀ d before after, (d == c) = false →
      matchesAround (d :: before) after (c :: trimmed) = false := by
    intro d before after hd
    rw [matchesAround, List.isPrefixOf, hd]
    rfl
  simp only [isVariable, hcs, htrim, hno _ _ _ (hne '\x7b' (by decide)),
    hno _ _ _ (hne '$' (by decide)), hno _ _ _ (hne '[' (by decide)), Bool.or_self]

theorem isVariable_of_number {s : String} (h : IsToken .number s.toList) :
    isVariable s = false := by
  obtain ⟨rule, hr, htype, hm, hne⟩ := h.exists_rule
  have hc := List.head?_eq_some_head hne
  have hnumber : ∀ rule ∈ rules, rule.1 = .number → rule.2 = number := by
    simp [rules, fixedRules]
  have hstarts := Regex.starts_of_matches hm _ hc
  rw [hnumber rule hr htype] at hstarts
  generalize s.toList.head hne = c at hc hstarts
  have hcases : c = '+' ∨ c = '-' ∨ c = '.' ∨ c.isDigit := by
    simp only [number, Regex.starts, Regex.opt, Regex.plus, sign, digit, literal, Regex.nullable,
      Bool.or_eq_true, Bool.and_eq_true, decide_eq_true_eq] at hstarts
    tauto
  rcases hcases with rfl | rfl | rfl | hdigit
  · exact isVariable_of_head hc (by decide) (by decide)
  · exact isVariable_of_head hc (by decide) (by decide)
  · exact isVariable_of_head hc (by decide) (by decide)
  · have hnat : 48 ≤ c.toNat ∧ c.toNat ≤ 57 := Char.isDigit_iff_toNat.1 hdigit
    refine isVariable_of_head hc ?_ ?_
    · simp only [isSpace, List.mem_cons, List.not_mem_nil, or_false, Bool.or_eq_false_iff,
        decide_eq_false_iff_not, Bool.and_eq_false_iff]
      omega
    · intro hmem
      simp only [List.mem_cons, List.not_mem_nil, or_false] at hmem
      rcases hmem with rfl | rfl | rfl <;> revert hdigit <;> decide

/-- What is written for one value is no list and no variable. -/
theorem single_of_survives (hnumber : mc.fmt.WritesNumbers) {param : Bool}
    (hvar : ∀ t, s = .string t → isVariable t = false) (h : s.Survives mc dataType param) :
    (!"[".toList.isPrefixOf (formatScalar mc dataType s).toList &&
      !isVariable (formatScalar mc dataType s)) = true := by
  have hhead : ∀ {text : String} {c : Char}, text.toList.head? = some c → c ≠ '[' →
      isVariable text = false → (!"[".toList.isPrefixOf text.toList && !isVariable text) = true := by
    intro text c hc hbrack hvar
    obtain ⟨cs, hcs⟩ := List.head?_eq_some_iff.1 hc
    have hopen : "[".toList = ['['] := by decide
    rw [hcs, hvar, hopen, List.isPrefixOf, beq_eq_false_iff_ne.2 hbrack.symm]
    rfl
  have htoken : ∀ {text : String} {type : TokenType}, IsToken type text.toList →
      type ∉ delimiters → isVariable text = false →
      (!"[".toList.isPrefixOf text.toList && !isVariable text) = true := by
    intro text type ht htype hvar
    obtain ⟨b, hb, hfree⟩ := ht.first htype
    refine hhead hb ?_ hvar
    rintro rfl
    exact absurd hfree (by decide)
  cases s with
  | string s =>
    rw [formatScalar_string (hvar s rfl)]
    by_cases hnum : isNumericType dataType && mc.fmt.scansFloat s
    · rw [V4Scalar.Survives, if_pos hnum] at h
      rw [if_pos hnum]
      rcases h with h | ⟨-, h⟩
      · exact htoken h (by decide) (hvar s rfl)
      · exact htoken h (by decide) (hvar s rfl)
    · rw [if_neg hnum]
      have hquote : (String.ofList (quote :: (escapeQuotes s.toList ++ [quote]))).toList.head? =
          some quote := by
        rw [String.toList_ofList]
        rfl
      exact hhead hquote (by decide) (isVariable_of_head hquote (by decide) (by decide))
  | number x => exact htoken (hnumber x) (by decide) (isVariable_of_number (hnumber x))
  | int n => exact htoken (isToken_int n) (by decide) (isVariable_of_number (isToken_int n))
  | bool b =>
    have htexts : ∀ b : Bool, (!"[".toList.isPrefixOf (if b then "true" else "false").toList &&
        !isVariable (if b then "true" else "false")) = true := by decide
    exact htexts b

/-! ## A condition that survives -/

/-- What follows the condition of an item. -/
def isConditionEnd (c : Char) : Bool := c = ' ' || c = ')'

theorem isValueEnd_of_isConditionEnd {c : Char} (h : isConditionEnd c) : isValueEnd c := by
  simp only [isConditionEnd, Bool.or_eq_true, decide_eq_true_eq] at h
  rcases h with rfl | rfl <;> rfl

theorem isBreak_of_isConditionEnd {c : Char} (h : isConditionEnd c) : isBreak c := by
  simp only [isConditionEnd, Bool.or_eq_true, decide_eq_true_eq] at h
  rcases h with rfl | rfl <;> rfl

section Survives

variable {key dataType : String} {keyMetadata : Obj F} {op : V4Operator} {value : V4Value F}
  {ts : List Token}

theorem readsUnary_comparison (hkey : IsToken .key key.toList)
    {words : List (TokenType × List Char)}
    (hwords : ∀ w ∈ words, w ∈ signs ∨ IsToken w.1 w.2 ∧ w.1 ∉ delimiters) {text rest : List Char}
    {o : Operation}
    (hparse : parseOperation (wordTokens words ++ scan (text ++ rest)) = some (o, ts)) :
    ReadsUnary (scan (conditionText key.toList words text ++ rest)) (.plain (.comparison ⟨key, o⟩))
      ts := by
  rw [scan_conditionText hkey hwords, String.ofList_toList]
  exact .plain nofun (.comparison rfl hparse)

variable {f : Value → Operation}

/-- A comparison with one value. -/
theorem readsUnary_of_single (hnumber : mc.fmt.WritesNumbers) (hkey : IsToken .key key.toList)
    (hvar : NoVariable value.values) (hop : op.operation = some f) (hrest : value.rest = [])
    (h : value.first.Survives mc (keyMetadata.stringD "dataType") false) :
    ∃ e, ReadBy mc key (keyMetadata.stringD "dataType") op value.values e ∧
      ∀ rest, (∀ c ∈ rest.head?, isConditionEnd c) →
        ReadsUnary (scan ((buildCondition mc key op.text value.any keyMetadata).toList ++ rest)) e
          (scan rest) := by
  have hfirst : ∀ t, value.first = .string t → isVariable t = false :=
    fun t ht => hvar t (ht ▸ List.mem_cons_self)
  have htext := formatValue_of_rest_nil mc (keyMetadata.stringD "dataType") hrest
  have hbuild : (buildCondition mc key op.text value.any keyMetadata).toList =
      conditionText key.toList op.words
        (formatScalar mc (keyMetadata.stringD "dataType") value.first).toList := by
    cases hlist : op.listOperation with
    | none => rw [toList_buildCondition (by rw [hop]; rfl) hlist, htext]
    | some g =>
      rw [toList_buildCondition_in (by rw [hlist]; rfl) key value.any keyMetadata htext,
        if_pos (single_of_survives hnumber hfirst h)]
  obtain ⟨t, v, hv, hread, -, hscan⟩ := scan_of_survives hnumber hfirst h
  refine ⟨.plain (.comparison ⟨key, f v⟩), ?_, fun rest hend => ?_⟩
  · rw [V4Value.values, hrest]
    exact .comparison hop hread
  · rw [hbuild]
    apply readsUnary_comparison hkey (words_scan op).1
    rw [hscan rest fun c hc => isValueEnd_of_isConditionEnd (hend c hc), parseOperation_words hop,
      parseValue_iff.2 ⟨t, rfl, hv⟩]
    rfl

variable {s : V4Scalar F} {l : List (V4Scalar F)}

variable (mc dataType) in
/-- The text of a list of two or more. -/
theorem toList_formatValue_of_rest_cons (h : value.rest = s :: l) (rest : List Char) :
    (formatValue mc dataType value.any).toList ++ rest =
      '[' :: listText mc dataType value.values rest := by
  rw [formatValue_of_rest_cons mc dataType h, listText]
  simp [String.toList_append]

theorem toList_buildCondition_list {f : InClause → Operation} (hop : op.listOperation = some f)
    (h : value.rest = s :: l) :
    (buildCondition mc key op.text value.any keyMetadata).toList =
      conditionText key.toList op.listWords
        (formatValue mc (keyMetadata.stringD "dataType") value.any).toList := by
  have htext := toList_formatValue_of_rest_cons mc (keyMetadata.stringD "dataType") h []
  rw [List.append_nil] at htext
  have hopen : "[".toList = ['['] := by decide
  rw [toList_buildCondition_in (by rw [hop]; rfl) key value.any keyMetadata rfl, htext, hopen]
  rfl

/-- A comparison with a list. -/
theorem readsUnary_of_list (hnumber : mc.fmt.WritesNumbers) (hkey : IsToken .key key.toList)
    (hvar : NoVariable value.values) {f : InClause → Operation} (hop : op.listOperation = some f)
    (hrest : value.rest = s :: l)
    (h : ∀ x ∈ value.values, x.Survives mc (keyMetadata.stringD "dataType") false) :
    ∃ e, ReadBy mc key (keyMetadata.stringD "dataType") op value.values e ∧
      ∀ rest, ReadsUnary
        (scan ((buildCondition mc key op.text value.any keyMetadata).toList ++ rest)) e
        (scan rest) := by
  obtain ⟨v, vs, hreads, hparse⟩ := parse_list_of_survives hnumber hvar h
  refine ⟨.plain (.comparison ⟨key, f (.list ⟨v, vs⟩)⟩), ?_, fun rest => ?_⟩
  · refine .list hop ?_ hreads
    rw [V4Value.values, hrest]
    exact Nat.le_add_left 2 l.length
  · obtain ⟨ts, hfirst, hmore⟩ := hparse rest
    rw [toList_buildCondition_list hop hrest]
    apply readsUnary_comparison hkey (words_scan op).2
    rw [toList_formatValue_of_rest_cons mc _ hrest,
      scan_punctuation (show (TokenType.lbrack, '[') ∈ punctuation by decide),
      parseOperation_listWords hop, parseIn]
    have hlist : parseList .rbrack
        (scan (listText mc (keyMetadata.stringD "dataType") value.values rest)) =
          some (⟨v, vs⟩, scan rest) :=
      parseList_iff.2 ⟨ts, ⟨.rbrack, "]"⟩, hfirst, hmore, rfl⟩
    simp only [hlist, Option.map_some]

/-- The existence of a key. -/
theorem readsUnary_exists (hkey : IsToken .key key.toList) (rest : List Char)
    (hend : ∀ c ∈ rest.head?, isConditionEnd c) :
    ReadsUnary (scan ((buildCondition mc key "exists" value.any keyMetadata).toList ++ rest))
      (.plain (.comparison ⟨key, .exists false⟩)) (scan rest) := by
  have hbreak : ∀ c ∈ rest.head?, isBreak c := fun c hc => isBreak_of_isConditionEnd (hend c hc)
  have hword : IsToken .exists ['E', 'X', 'I', 'S', 'T', 'S'] := by decide
  have htext : (buildCondition mc key "exists" value.any keyMetadata).toList ++ rest =
      key.toList ++ ' ' :: (['E', 'X', 'I', 'S', 'T', 'S'] ++ rest) := by
    simp [buildCondition]
  rw [htext, scan_word hkey (by decide) (by rintro _ ⟨⟩; rfl), scan_blank,
    scan_word hword (by decide) hbreak, String.ofList_toList]
  exact .plain nofun (.comparison rfl rfl)

theorem readsUnary_notExists (hkey : IsToken .key key.toList) (rest : List Char)
    (hend : ∀ c ∈ rest.head?, isConditionEnd c) :
    ReadsUnary (scan ((buildCondition mc key "nexists" value.any keyMetadata).toList ++ rest))
      (.plain (.comparison ⟨key, .exists true⟩)) (scan rest) := by
  have hbreak : ∀ c ∈ rest.head?, isBreak c := fun c hc => isBreak_of_isConditionEnd (hend c hc)
  have hword : IsToken .exists ['E', 'X', 'I', 'S', 'T', 'S'] := by decide
  have hnot : IsToken .not ['N', 'O', 'T'] := by decide
  have htext : (buildCondition mc key "nexists" value.any keyMetadata).toList ++ rest =
      key.toList ++ ' ' :: (['N', 'O', 'T'] ++ ' ' :: (['E', 'X', 'I', 'S', 'T', 'S'] ++ rest)) := by
    simp [buildCondition]
  rw [htext, scan_word hkey (by decide) (by rintro _ ⟨⟩; rfl), scan_blank,
    scan_word hnot (by decide) (by rintro _ ⟨⟩; rfl), scan_blank,
    scan_word hword (by decide) hbreak, String.ofList_toList]
  exact .plain nofun (.comparison rfl rfl)

/-- The text of a call behind its name. -/
theorem scan_call (hkey : IsToken .key key.toList) (text rest : List Char) :
    scan (['h', 'a', 's'] ++ '(' :: (key.toList ++ ',' :: ' ' :: (text ++ ')' :: rest))) =
      ⟨.has, "has"⟩ :: ⟨.lparen, "("⟩ :: ⟨.key, key⟩ :: ⟨.comma, ","⟩ ::
        scan (text ++ ')' :: rest) := by
  have hword : IsToken .has ['h', 'a', 's'] := by decide
  rw [scan_word hword (by decide) (by rintro _ ⟨⟩; rfl),
    scan_punctuation (show (TokenType.lparen, '(') ∈ punctuation by decide),
    scan_word hkey (by decide) (by rintro _ ⟨⟩; rfl), scan_comma, String.ofList_toList]

/-- The parameter of a call whose scalars survive. -/
theorem parseParam_of_survives (hnumber : mc.fmt.WritesNumbers) (hvar : NoVariable value.values)
    (h : ∀ x ∈ value.values, x.Survives mc dataType (value.values.length = 1)) :
    ∃ p, ParamReadBy mc dataType value.values p ∧ ∀ rest,
      parseParam (scan ((formatValue mc dataType value.any).toList ++ ')' :: rest)) =
        some (p, ⟨.rparen, ")"⟩ :: scan rest) := by
  have hclose : ∀ rest, scan (')' :: rest) = ⟨.rparen, ")"⟩ :: scan rest :=
    scan_punctuation (show (TokenType.rparen, ')') ∈ punctuation by decide)
  cases hrest : value.rest with
  | nil =>
    have hone : value.values.length = 1 := by
      rw [V4Value.values, hrest]
      rfl
    obtain ⟨t, v, hv, hread, htype, hscan⟩ := scan_of_survives hnumber
      (fun t ht => hvar t (ht ▸ List.mem_cons_self)) (h value.first List.mem_cons_self)
    refine ⟨.value v, ?_, fun rest => ?_⟩
    · rw [V4Value.values, hrest]
      exact .value hread
    · rw [formatValue_of_rest_nil mc dataType hrest, hscan _ (by rintro _ ⟨⟩; rfl), hclose]
      exact parseParam_value_iff.2 ⟨t, rfl, hv, htype (decide_eq_true hone)⟩
  | cons s l =>
    have hmany : (value.values.length = 1) = False := by
      rw [V4Value.values, hrest]
      simp
    simp only [hmany, decide_false] at h
    obtain ⟨v, vs, hreads, hparse⟩ := parse_list_of_survives hnumber hvar h
    refine ⟨.array ⟨v, vs⟩, ?_, fun rest => ?_⟩
    · refine .array ?_ hreads
      rw [V4Value.values, hrest]
      exact Nat.le_add_left 2 l.length
    · obtain ⟨ts, hfirst, hmore⟩ := hparse (')' :: rest)
      have hlist : parseList .rbrack (scan (listText mc dataType value.values (')' :: rest))) =
          some (⟨v, vs⟩, scan (')' :: rest)) :=
        parseList_iff.2 ⟨ts, ⟨.rbrack, "]"⟩, hfirst, hmore, rfl⟩
      rw [toList_formatValue_of_rest_cons mc dataType hrest,
        scan_punctuation (show (TokenType.lbrack, '[') ∈ punctuation by decide), parseParam]
      simp only [hlist, Option.map_some, hclose]

theorem toList_buildCondition_has (rest : List Char) :
    (buildCondition mc key "has" value.any keyMetadata).toList ++ rest =
      ['h', 'a', 's'] ++ '(' :: (key.toList ++ ',' :: ' ' ::
        ((formatValue mc (keyMetadata.stringD "dataType") value.any).toList ++ ')' :: rest)) := by
  simp [buildCondition]

theorem toList_buildCondition_notHas (rest : List Char) :
    (buildCondition mc key "nhas" value.any keyMetadata).toList ++ rest =
      ['N', 'O', 'T'] ++ ' ' ::
        ((buildCondition mc key "has" value.any keyMetadata).toList ++ rest) := by
  simp [buildCondition]

theorem scan_not (rest : List Char) :
    scan (['N', 'O', 'T'] ++ ' ' :: rest) = ⟨.not, "NOT"⟩ :: scan rest := by
  have hnot : IsToken .not ['N', 'O', 'T'] := by decide
  rw [scan_word hnot (by decide) (by rintro _ ⟨⟩; rfl), scan_blank]

/-- A call of `has`. -/
theorem readsPrimary_has (hnumber : mc.fmt.WritesNumbers) (hkey : IsToken .key key.toList)
    (hvar : NoVariable value.values)
    (h : ∀ x ∈ value.values,
      x.Survives mc (keyMetadata.stringD "dataType") (value.values.length = 1)) :
    ∃ p, ParamReadBy mc (keyMetadata.stringD "dataType") value.values p ∧ ∀ rest,
      ReadsPrimary (scan ((buildCondition mc key "has" value.any keyMetadata).toList ++ rest))
        (.functionCall ⟨.has, .key key, [p]⟩) (scan rest) := by
  obtain ⟨p, hread, hparse⟩ := parseParam_of_survives hnumber hvar h
  refine ⟨p, hread, fun rest => ?_⟩
  rw [toList_buildCondition_has, scan_call hkey]
  exact .functionCall rfl (parseCall_eq rfl rfl rfl rfl (hparse rest))

/-- The condition of an item that survives is read as what the item says. -/
theorem readsUnary_of_survives (hnumber : mc.fmt.WritesNumbers) (hkey : IsToken .key key.toList)
    (hvar : NoVariable value.values)
    (h : ItemSurvives mc (keyMetadata.stringD "dataType") op value.values) :
    ∃ e, ReadBy mc key (keyMetadata.stringD "dataType") op value.values e ∧
      ∀ rest, (∀ c ∈ rest.head?, isConditionEnd c) →
        ReadsUnary (scan ((buildCondition mc key op.text value.any keyMetadata).toList ++ rest)) e
          (scan rest) := by
  have hcomparison : op.isCall = false → op.isExists = false → op.operation.isSome →
      ∃ e, ReadBy mc key (keyMetadata.stringD "dataType") op value.values e ∧
        ∀ rest, (∀ c ∈ rest.head?, isConditionEnd c) →
          ReadsUnary (scan ((buildCondition mc key op.text value.any keyMetadata).toList ++ rest)) e
            (scan rest) := by
    intro hcall hexists hop
    rw [ItemSurvives, hexists, hcall, Bool.false_and] at h
    simp only [Bool.false_eq_true, false_or, or_false] at h
    obtain ⟨hmany, hall⟩ := h
    cases hrest : value.rest with
    | nil =>
      obtain ⟨f, hf⟩ := Option.isSome_iff_exists.1 hop
      exact readsUnary_of_single hnumber hkey hvar hf hrest (hall _ List.mem_cons_self)
    | cons s l =>
      have hlen : 2 ≤ value.values.length := by
        rw [V4Value.values, hrest]
        exact Nat.le_add_left 2 l.length
      obtain ⟨f, hf⟩ := Option.isSome_iff_exists.1 (hmany hlen)
      obtain ⟨e, he, hreads⟩ := readsUnary_of_list hnumber hkey hvar hf hrest hall
      exact ⟨e, he, fun rest _ => hreads rest⟩
  have hcall : op.isCall → ∃ p, ParamReadBy mc (keyMetadata.stringD "dataType") value.values p ∧
      ∀ rest, ReadsPrimary
        (scan ((buildCondition mc key "has" value.any keyMetadata).toList ++ rest))
        (.functionCall ⟨.has, .key key, [p]⟩) (scan rest) := by
    intro hcall
    have hexists : op.isExists = false := by
      cases op <;> first | rfl | cases hcall
    rw [ItemSurvives, hexists, hcall, Bool.true_and] at h
    exact readsPrimary_has hnumber hkey hvar (h.resolve_left Bool.false_ne_true).2
  cases op
  case «exists» => exact ⟨_, .exists, readsUnary_exists hkey⟩
  case notExists => exact ⟨_, .notExists, readsUnary_notExists hkey⟩
  case has =>
    obtain ⟨p, hp, hreads⟩ := hcall rfl
    refine ⟨_, .has hp, fun rest _ => ?_⟩
    have hhas := hreads rest
    rw [V4Operator.text]
    rw [toList_buildCondition_has, scan_call hkey] at hhas ⊢
    exact .plain nofun hhas
  case notHas =>
    obtain ⟨p, hp, hreads⟩ := hcall rfl
    refine ⟨_, .notHas hp, fun rest _ => ?_⟩
    rw [V4Operator.text, toList_buildCondition_notHas, scan_not]
    exact .not rfl (hreads rest)
  all_goals exact hcomparison rfl rfl rfl

/-! ## A condition that is read as what the item says -/

/-- The parameter of a call that is read as the value. -/
theorem survives_of_parseParam (hnumber : mc.fmt.WritesNumbers) (hscans : mc.fmt.ScansNumbers)
    (hvar : NoVariable value.values) {p : FunctionParam} {rest : List Char} {ts : List Token}
    (hread : ParamReadBy mc dataType value.values p)
    (hparse : parseParam (scan ((formatValue mc dataType value.any).toList ++ ')' :: rest)) =
      some (p, ts)) :
    ∀ x ∈ value.values, x.Survives mc dataType (value.values.length = 1) := by
  generalize hl : value.values = l at hread
  cases hread with
  | @value s v hs =>
    obtain ⟨rfl, hrest⟩ : value.first = s ∧ value.rest = [] := List.cons.inj hl
    rw [formatValue_of_rest_nil mc dataType hrest] at hparse
    obtain ⟨t, hscan, hv, htype⟩ := parseParam_value_iff.1 hparse
    intro x hx
    obtain rfl := List.mem_singleton.1 hx
    exact survives_of_scan hscans (fun t ht => hvar t (ht ▸ List.mem_cons_self))
      (by rintro _ ⟨⟩; rfl) hscan hv hs fun _ => htype
  | @array l vs hlen hreads =>
    subst hl
    cases hrest : value.rest with
    | nil =>
      rw [V4Value.values, hrest] at hlen
      exact absurd hlen (by simp)
    | cons s l =>
      rw [toList_formatValue_of_rest_cons mc dataType hrest] at hparse
      obtain ⟨t, ts', hscan, -, hlist⟩ := parseParam_array_iff.1 hparse
      rw [scan_punctuation (show (TokenType.lbrack, '[') ∈ punctuation by decide)] at hscan
      obtain ⟨-, rfl⟩ := List.cons.inj hscan
      obtain ⟨ts₁, c, hfirst, hmore, -⟩ := parseList_iff.1 hlist
      have hmany : decide (value.values.length = 1) = false := by
        rw [decide_eq_false_iff_not]
        omega
      rw [hmany]
      exact survives_of_parse_list hnumber hscans hvar hreads hfirst hmore

variable {rest : List Char}

theorem survives_of_readsPrimary (hnumber : mc.fmt.WritesNumbers) (hscans : mc.fmt.ScansNumbers)
    (hkey : IsToken .key key.toList) (hvar : NoVariable value.values) {p : FunctionParam}
    (hread : ParamReadBy mc (keyMetadata.stringD "dataType") value.values p)
    (h : ReadsPrimary (scan ((buildCondition mc key "has" value.any keyMetadata).toList ++ rest))
      (.functionCall ⟨.has, .key key, [p]⟩) ts) :
    ∀ x ∈ value.values,
      x.Survives mc (keyMetadata.stringD "dataType") (value.values.length = 1) := by
  rw [toList_buildCondition_has, scan_call hkey] at h
  obtain ⟨name, -, hcall⟩ := h.parseCall_eq
  obtain ⟨d, -, hparam⟩ := exists_param_of_parseCall rfl rfl rfl hcall
  exact survives_of_parseParam hnumber hscans hvar hread hparam

theorem operation_injective (hop : op.operation = some f) {v v' : Value} (h : f v = f v') :
   v = v' := by
  cases op <;> cases hop <;> cases h <;> rfl

theorem listOperation_ne {g : InClause → Operation} (hop : op.operation = some f)
    (hlist : op.listOperation = some g) (v : Value) (clause : InClause) : g clause ≠ f v := by
  cases op
  case «in» | notIn =>
    cases hop
    cases hlist
    nofun
  all_goals cases hlist

theorem listOperation_injective {g : InClause → Operation} (hlist : op.listOperation = some g)
    {clause clause' : InClause} (h : g clause = g clause') : clause = clause' := by
  cases op
  case «in» | notIn =>
    cases hlist
    cases h
    rfl
  all_goals cases hlist

/-- A comparison that is read as one with the value. -/
theorem survives_of_single (hscans : mc.fmt.ScansNumbers) (hkey : IsToken .key key.toList)
    (hvar : NoVariable value.values) (hop : op.operation = some f) (hrest : value.rest = [])
    {v : Value} (hend : ∀ c ∈ rest.head?, isConditionEnd c)
    (hread : value.first.Reads mc (keyMetadata.stringD "dataType") (readValue v))
    (h : ReadsUnary (scan ((buildCondition mc key op.text value.any keyMetadata).toList ++ rest))
      (.plain (.comparison ⟨key, f v⟩)) ts) :
    value.first.Survives mc (keyMetadata.stringD "dataType") false := by
  have htext := formatValue_of_rest_nil mc (keyMetadata.stringD "dataType") hrest
  have hwords : ReadsUnary (scan (conditionText key.toList op.words
      (formatScalar mc (keyMetadata.stringD "dataType") value.first).toList ++ rest))
      (.plain (.comparison ⟨key, f v⟩)) ts →
      value.first.Survives mc (keyMetadata.stringD "dataType") false := by
    intro h
    rw [scan_conditionText hkey (words_scan op).1] at h
    obtain ⟨-, hparse⟩ := h.parseOperation_eq
    rw [parseOperation_words hop] at hparse
    obtain ⟨⟨v', ts'⟩, hvalue, heq⟩ := Option.map_eq_some_iff.1 hparse
    obtain ⟨hf, rfl⟩ := Prod.mk.inj heq
    obtain rfl : v' = v := operation_injective hop hf
    obtain ⟨t, hscan, hv⟩ := parseValue_iff.1 hvalue
    exact survives_of_scan hscans (fun t ht => hvar t (ht ▸ List.mem_cons_self))
      (fun c hc => isValueEnd_of_isConditionEnd (hend c hc)) hscan hv hread nofun
  cases hlist : op.listOperation with
  | none =>
    rw [toList_buildCondition (by rw [hop]; rfl) hlist, htext] at h
    exact hwords h
  | some g =>
    rw [toList_buildCondition_in (by rw [hlist]; rfl) key value.any keyMetadata htext] at h
    split at h
    · exact hwords h
    · -- A text that looks like a list or a variable is read as what follows `IN`.
      rw [scan_conditionText hkey (words_scan op).2] at h
      obtain ⟨-, hparse⟩ := h.parseOperation_eq
      rw [parseOperation_listWords hlist] at hparse
      obtain ⟨⟨clause, ts'⟩, -, heq⟩ := Option.map_eq_some_iff.1 hparse
      exact absurd (Prod.mk.inj heq).1 (listOperation_ne hop hlist v clause)

/-- A comparison that is read as one with the list. -/
theorem survives_of_list (hnumber : mc.fmt.WritesNumbers) (hscans : mc.fmt.ScansNumbers)
    (hkey : IsToken .key key.toList) (hvar : NoVariable value.values) {f : InClause → Operation}
    (hop : op.listOperation = some f) (hrest : value.rest = s :: l) {vs : ValueList}
    (hreads : List.Forall₂ (V4Scalar.Reads mc (keyMetadata.stringD "dataType")) value.values
      (vs.allValue.map readValue))
    (h : ReadsUnary (scan ((buildCondition mc key op.text value.any keyMetadata).toList ++ rest))
      (.plain (.comparison ⟨key, f (.list vs)⟩)) ts) :
    ∀ x ∈ value.values, x.Survives mc (keyMetadata.stringD "dataType") false := by
  rw [toList_buildCondition_list hop hrest, scan_conditionText hkey (words_scan op).2,
    toList_formatValue_of_rest_cons mc _ hrest,
    scan_punctuation (show (TokenType.lbrack, '[') ∈ punctuation by decide)] at h
  obtain ⟨-, hparse⟩ := h.parseOperation_eq
  rw [parseOperation_listWords hop, parseIn] at hparse
  obtain ⟨⟨clause, ts'⟩, hin, heq⟩ := Option.map_eq_some_iff.1 hparse
  obtain ⟨⟨l', ts''⟩, hlist, hl'⟩ := Option.map_eq_some_iff.1 hin
  cases hl'
  obtain rfl : l' = vs := InClause.list.inj (listOperation_injective hop (Prod.mk.inj heq).1)
  obtain ⟨ts₁, c, hfirst, hmore, -⟩ := parseList_iff.1 hlist
  exact survives_of_parse_list hnumber hscans hvar hreads hfirst hmore

/-- The condition of an item survives when it is read as what the item says. -/
theorem survives_of_readsUnary (hnumber : mc.fmt.WritesNumbers) (hscans : mc.fmt.ScansNumbers)
    (hkey : IsToken .key key.toList) (hvar : NoVariable value.values) {e : UnaryExpression}
    (hend : ∀ c ∈ rest.head?, isConditionEnd c)
    (hread : ReadBy mc key (keyMetadata.stringD "dataType") op value.values e)
    (h : ReadsUnary (scan ((buildCondition mc key op.text value.any keyMetadata).toList ++ rest)) e
      ts) : ItemSurvives mc (keyMetadata.stringD "dataType") op value.values := by
  generalize hl : value.values = l at hread
  cases hread with
  | @comparison op f s v hop hs =>
    obtain ⟨rfl, hrest⟩ : value.first = s ∧ value.rest = [] := List.cons.inj hl
    have hsurvives := survives_of_single hscans hkey hvar hop hrest hend hs h
    refine .inr ⟨fun hlen => absurd hlen (by simp), fun x hx => ?_⟩
    obtain rfl := List.mem_singleton.1 hx
    have hcall : op.isCall = false := by
      cases op <;> first | rfl | cases hop
    rw [hcall, Bool.false_and]
    exact hsurvives
  | @list op f l vs hop hlen hreads =>
    subst hl
    cases hrest : value.rest with
    | nil =>
      rw [V4Value.values, hrest] at hlen
      exact absurd hlen (by simp)
    | cons s l =>
      have hsurvives := survives_of_list hnumber hscans hkey hvar hop hrest hreads h
      have hcall : op.isCall = false := by
        cases op <;> first | rfl | cases hop
      refine .inr ⟨fun _ => .inl (by rw [hop]; rfl), ?_⟩
      rw [hcall, Bool.false_and]
      exact hsurvives
  | «exists» => exact .inl rfl
  | notExists => exact .inl rfl
  | @has l p hp =>
    subst hl
    refine .inr ⟨fun _ => .inr rfl, ?_⟩
    rw [V4Operator.text, toList_buildCondition_has, scan_call hkey] at h
    cases h with
    | plain _ h =>
      rw [← scan_call hkey, ← toList_buildCondition_has] at h
      exact survives_of_readsPrimary hnumber hscans hkey hvar hp h
  | @notHas l p hp =>
    subst hl
    refine .inr ⟨fun _ => .inr rfl, ?_⟩
    rw [V4Operator.text, toList_buildCondition_notHas, scan_not] at h
    cases h with
    | not _ h => exact survives_of_readsPrimary hnumber hscans hkey hvar hp h

end Survives

end Signoz.Transition
