import Signoz.FilterQuery.Lexer
import Signoz.FilterQuery.Syntax

/-!
# The parse of a filter expression

The parser rules of `FilterQuery.g4`, by recursive descent. Where two alternatives of a rule read
the same tokens, the parser takes the first, and a loop goes on while it can. A syntax error is
`none`.

`Reads ts e rest` says what the parser reads, rule by rule and without fuel: it reads `e` from the
start of `ts` and leaves `rest`. That is what the parser does (`parseQuery_eq_some_iff`).
-/

namespace Signoz.FilterQuery

/-! ## The parser -/

/-- `value`. -/
def Token.value? (t : Token) : Option Value :=
  match t.type with
  | .quotedText => some (.quotedText t.text)
  | .number => some (.number t.text)
  | .bool => some (.bool t.text)
  | .key => some (.key t.text)
  | _ => none

def parseValue : List Token → Option (Value × List Token)
  | [] => none
  | t :: ts => t.value?.map fun v => (v, ts)

def expect (type : TokenType) : List Token → Option (List Token)
  | [] => none
  | t :: ts => if t.type = type then some ts else none

/-- `( COMMA value )*`. -/
def parseValues : List Token → Option (List Value × List Token)
  | c :: t :: ts =>
    if c.type = .comma then do
      let v ← t.value?
      let (vs, rest) ← parseValues ts
      return (v :: vs, rest)
    else some ([], c :: t :: ts)
  | ts => some ([], ts)

/-- `valueList` and the token that closes it. -/
def parseList (close : TokenType) (ts : List Token) : Option (ValueList × List Token) := do
  let (first, ts) ← parseValue ts
  let (rest, ts) ← parseValues ts
  let ts ← expect close ts
  return (⟨first, rest⟩, ts)

/-- What follows `IN`. -/
def parseIn : List Token → Option (InClause × List Token)
  | [] => none
  | t :: ts =>
    match t.type with
    | .lparen => (parseList .rparen ts).map fun (l, ts) => (.list l, ts)
    | .lbrack => (parseList .rbrack ts).map fun (l, ts) => (.list l, ts)
    | _ => (parseValue (t :: ts)).map fun (v, ts) => (.single v, ts)

/-- The operators that may have a `NOT` before them. -/
def parseNegatable (negated : Bool) : List Token → Option (Operation × List Token)
  | [] => none
  | t :: ts =>
    match t.type with
    | .like => (parseValue ts).map fun (v, ts) => (.like negated v, ts)
    | .ilike => (parseValue ts).map fun (v, ts) => (.ilike negated v, ts)
    | .between => do
      let (low, ts) ← parseValue ts
      let ts ← expect .and ts
      let (high, ts) ← parseValue ts
      return (.between negated low high, ts)
    | .in => (parseIn ts).map fun (clause, ts) =>
      (if negated then .notInClause clause else .inClause clause, ts)
    | .exists => some (.exists negated, ts)
    | .regexp => (parseValue ts).map fun (v, ts) => (.regexp negated v, ts)
    | .contains => (parseValue ts).map fun (v, ts) => (.contains negated v, ts)
    | _ => none

/-- What follows the key of a comparison. -/
def parseOperation : List Token → Option (Operation × List Token)
  | [] => none
  | t :: ts =>
    match t.type with
    | .equals => (parseValue ts).map fun (v, ts) => (.equals v, ts)
    | .notEquals | .neq => (parseValue ts).map fun (v, ts) => (.notEquals v, ts)
    | .lt => (parseValue ts).map fun (v, ts) => (.lt v, ts)
    | .le => (parseValue ts).map fun (v, ts) => (.le v, ts)
    | .gt => (parseValue ts).map fun (v, ts) => (.gt v, ts)
    | .ge => (parseValue ts).map fun (v, ts) => (.ge v, ts)
    | .not => parseNegatable true ts
    | _ => parseNegatable false (t :: ts)

/-- `functionParam`. -/
def parseParam : List Token → Option (FunctionParam × List Token)
  | [] => none
  | t :: ts =>
    match t.type with
    | .key => some (.key t.text, ts)
    | .lbrack => (parseList .rbrack ts).map fun (l, ts) => (.array l, ts)
    | _ => t.value?.map fun v => (.value v, ts)

/-- `( COMMA functionParam )*`. -/
def parseParams : Nat → List Token → Option (List FunctionParam × List Token)
  | 0, _ => none
  | _, [] => some ([], [])
  | fuel + 1, c :: ts =>
    if c.type = .comma then do
      let (param, ts) ← parseParam ts
      let (params, ts) ← parseParams fuel ts
      return (param :: params, ts)
    else some ([], c :: ts)

/-- The function that a token names. -/
def Token.function? (t : Token) : Option FunctionName :=
  match t.type with
  | .hasToken => some .hasToken
  | .has => some .has
  | .hasAny => some .hasAny
  | .hasAll => some .hasAll
  | _ => none

/-- What follows the name of a function. -/
def parseCall (name : FunctionName) (ts : List Token) : Option (FunctionCall × List Token) := do
  let ts ← expect .lparen ts
  let (first, ts) ← parseParam ts
  let (rest, ts) ← parseParams (ts.length + 1) ts
  let ts ← expect .rparen ts
  return (⟨name, first, rest⟩, ts)

/-- A token that a `unaryExpression` starts with. -/
def Token.startsUnary (t : Token) : Bool :=
  t.type ∈ [.not, .lparen, .quotedText, .number, .bool, .key, .freeText] || t.function?.isSome

mutual

/-- `orExpression`. -/
def parseOr : Nat → List Token → Option (OrExpression × List Token)
  | 0, _ => none
  | fuel + 1, ts => do
    let (expr, ts) ← parseAnd fuel ts
    match ts with
    | [] => return (.last expr, [])
    | t :: ts =>
      if t.type = .or then
        let (rest, ts) ← parseOr fuel ts
        return (.or expr rest, ts)
      else return (.last expr, t :: ts)

/-- `andExpression`. -/
def parseAnd : Nat → List Token → Option (AndExpression × List Token)
  | 0, _ => none
  | fuel + 1, ts => do
    let (expr, ts) ← parseUnary fuel ts
    match ts with
    | [] => return (.last expr, [])
    | t :: ts =>
      if t.type = .and then
        let (rest, ts) ← parseAnd fuel ts
        return (.and expr rest, ts)
      else if t.startsUnary then
        let (rest, ts) ← parseAnd fuel (t :: ts)
        return (.and expr rest, ts)
      else return (.last expr, t :: ts)

/-- `unaryExpression`. -/
def parseUnary : Nat → List Token → Option (UnaryExpression × List Token)
  | 0, _ => none
  | _, [] => none
  | fuel + 1, t :: ts =>
    if t.type = .not then (parsePrimary fuel ts).map fun (primary, ts) => (.not primary, ts)
    else (parsePrimary fuel (t :: ts)).map fun (primary, ts) => (.plain primary, ts)

/-- `primary`. -/
def parsePrimary : Nat → List Token → Option (Primary × List Token)
  | 0, _ => none
  | _, [] => none
  | fuel + 1, t :: ts =>
    match t.type with
    | .lparen => do
      let (expr, ts) ← parseOr fuel ts
      let ts ← expect .rparen ts
      return (.group expr, ts)
    | .key =>
      match parseOperation ts with
      | some (operation, ts) => some (.comparison ⟨t.text, operation⟩, ts)
      | none => some (.key t.text, ts)
    | .quotedText => some (.fullText (.quotedText t.text), ts)
    | .freeText => some (.fullText (.freeText t.text), ts)
    | .number => some (.value (.number t.text), ts)
    | .bool => some (.value (.bool t.text), ts)
    | _ => do
      let name ← t.function?
      let (call, ts) ← parseCall name ts
      return (.functionCall call, ts)

end

/-- `query`. -/
def parseQuery (ts : List Token) : Option OrExpression :=
  match parseOr (4 * ts.length + 4) ts with
  | some (expr, []) => some expr
  | _ => none

/-- The parse of an expression, without what the lexer dropped. -/
def parse (text : String) : Option OrExpression := parseQuery (tokens text)

theorem expect_cons {t : Token} {type : TokenType} (h : t.type = type) (ts : List Token) :
    expect type (t :: ts) = some ts :=
  if_pos h

theorem expect_eq_some {type : TokenType} {ts rest : List Token} (h : expect type ts = some rest) :
    ∃ t, ts = t :: rest ∧ t.type = type := by
  cases ts with
  | nil => cases h
  | cons t ts =>
    rw [expect] at h
    split at h
    · next ht =>
        cases h
        exact ⟨t, rfl, ht⟩
    · cases h

theorem parseValue_iff {ts rest : List Token} {v : Value} :
    parseValue ts = some (v, rest) ↔ ∃ t, ts = t :: rest ∧ t.value? = some v := by
  cases ts with
  | nil =>
    constructor
    · nofun
    · rintro ⟨_, h, -⟩
      cases h
  | cons t ts =>
    constructor
    · intro h
      obtain ⟨w, hw, h⟩ := Option.map_eq_some_iff.1 h
      cases h
      exact ⟨t, rfl, hw⟩
    · rintro ⟨_, h, hv⟩
      cases h
      rw [parseValue, hv]
      rfl

/-- What follows a comma in a list of values. -/
theorem parseValues_comma {c : Token} (hc : c.type = .comma) {ts rest : List Token} {v : Value}
    {vs : List Value} : parseValues (c :: ts) = some (v :: vs, rest) ↔
      ∃ ts', parseValue ts = some (v, ts') ∧ parseValues ts' = some (vs, rest) := by
  cases ts with
  | nil =>
    rw [parseValues]
    · constructor
      · nofun
      · rintro ⟨_, h, -⟩
        cases h
    · intro _ _ _ h
      cases h
  | cons t ts =>
    rw [parseValues, if_pos hc]
    constructor
    · intro h
      obtain ⟨w, hw, h⟩ := Option.bind_eq_some_iff.1 h
      obtain ⟨⟨ws, ts'⟩, hws, h⟩ := Option.bind_eq_some_iff.1 h
      cases h
      exact ⟨ts, by rw [parseValue, hw]; rfl, hws⟩
    · rintro ⟨ts', hv, hvs⟩
      obtain ⟨w, hw, h⟩ := Option.map_eq_some_iff.1 hv
      cases h
      simp only [hw, hvs, Option.bind_eq_bind, Option.bind_some, Option.pure_def]

/-- A list of values ends where no comma follows. -/
theorem parseValues_of_ne_comma {c : Token} (hc : c.type ≠ .comma) (ts : List Token) :
    parseValues (c :: ts) = some ([], c :: ts) := by
  cases ts with
  | nil =>
    rw [parseValues]
    intro _ _ _ h
    cases h
  | cons t ts => rw [parseValues, if_neg hc]

theorem parseList_iff {close : TokenType} {ts rest : List Token} {l : ValueList} :
    parseList close ts = some (l, rest) ↔ ∃ ts' c, parseValue ts = some (l.first, ts') ∧
      parseValues ts' = some (l.rest, c :: rest) ∧ c.type = close := by
  constructor
  · intro h
    obtain ⟨⟨v, ts₁⟩, hv, h⟩ := Option.bind_eq_some_iff.1 h
    obtain ⟨⟨vs, ts₂⟩, hvs, h⟩ := Option.bind_eq_some_iff.1 h
    obtain ⟨ts₃, hclose, h⟩ := Option.bind_eq_some_iff.1 h
    cases h
    obtain ⟨c, rfl, hc⟩ := expect_eq_some hclose
    exact ⟨ts₁, c, hv, hvs, hc⟩
  · rintro ⟨ts', c, hv, hvs, hc⟩
    simp only [parseList, hv, hvs, expect_cons hc, Option.bind_eq_bind, Option.bind_some,
      Option.pure_def]

/-- A parameter that is a value: the token is no key. -/
theorem parseParam_value_iff {ts rest : List Token} {v : Value} :
    parseParam ts = some (.value v, rest) ↔
      ∃ t, ts = t :: rest ∧ t.value? = some v ∧ t.type ≠ .key := by
  cases ts with
  | nil =>
    constructor
    · nofun
    · rintro ⟨_, h, -⟩
      cases h
  | cons t ts =>
    rw [parseParam]
    constructor
    · intro h
      split at h
      · cases h
      · obtain ⟨l, -, h⟩ := Option.map_eq_some_iff.1 h
        cases h
      · next hkey _ =>
          obtain ⟨w, hw, h⟩ := Option.map_eq_some_iff.1 h
          cases h
          exact ⟨t, rfl, hw, hkey⟩
    · rintro ⟨_, h, hv, hkey⟩
      cases h
      split
      · next htype => exact absurd htype hkey
      · next htype =>
          rw [Token.value?, htype] at hv
          cases hv
      · rw [hv]
        rfl

theorem parseParam_array_iff {ts rest : List Token} {l : ValueList} :
    parseParam ts = some (.array l, rest) ↔
      ∃ t ts', ts = t :: ts' ∧ t.type = .lbrack ∧ parseList .rbrack ts' = some (l, rest) := by
  cases ts with
  | nil =>
    constructor
    · nofun
    · rintro ⟨_, _, h, -⟩
      cases h
  | cons t ts =>
    rw [parseParam]
    constructor
    · intro h
      split at h
      · cases h
      · next htype =>
          obtain ⟨w, hw, h⟩ := Option.map_eq_some_iff.1 h
          cases h
          exact ⟨t, ts, rfl, htype, hw⟩
      · obtain ⟨w, -, h⟩ := Option.map_eq_some_iff.1 h
        cases h
    · rintro ⟨_, _, h, htype, hl⟩
      cases h
      simp only [htype, hl, Option.map_some]

/-- A call with a key and one more parameter. -/
theorem parseCall_eq {name : FunctionName} {o k c d : Token} (ho : o.type = .lparen)
    (hk : k.type = .key) (hc : c.type = .comma) (hd : d.type = .rparen) {ts rest : List Token}
    {p : FunctionParam} (hp : parseParam ts = some (p, d :: rest)) :
    parseCall name (o :: k :: c :: ts) = some (⟨name, .key k.text, [p]⟩, rest) := by
  have hkey : parseParam (k :: c :: ts) = some (.key k.text, c :: ts) := by
    rw [parseParam, hk]
  have hend : parseParams (ts.length + 1) (d :: rest) = some ([], d :: rest) := by
    rw [parseParams, if_neg]
    rw [hd]
    exact nofun
  have hparams : parseParams ((c :: ts).length + 1) (c :: ts) = some ([p], d :: rest) := by
    rw [List.length_cons, parseParams, if_pos hc, hp]
    simp only [hend, Option.bind_eq_bind, Option.bind_some, Option.pure_def]
  simp only [parseCall, expect_cons ho, hkey, hparams, expect_cons hd, Option.bind_eq_bind,
    Option.bind_some, Option.pure_def]

theorem exists_param_of_parseCall {name name' : FunctionName} {o k c : Token}
    (ho : o.type = .lparen) (hk : k.type = .key) (hc : c.type = .comma) {ts rest : List Token}
    {first p : FunctionParam}
    (h : parseCall name (o :: k :: c :: ts) = some (⟨name', first, [p]⟩, rest)) :
    ∃ d, d.type = .rparen ∧ parseParam ts = some (p, d :: rest) := by
  have hkey : parseParam (k :: c :: ts) = some (.key k.text, c :: ts) := by
    rw [parseParam, hk]
  simp only [parseCall, expect_cons ho, hkey, Option.bind_eq_bind, Option.bind_some] at h
  obtain ⟨⟨params, ts₁⟩, hparams, h⟩ := Option.bind_eq_some_iff.1 h
  obtain ⟨ts₂, hclose, h⟩ := Option.bind_eq_some_iff.1 h
  cases h
  obtain ⟨d, rfl, hd⟩ := expect_eq_some hclose
  rw [List.length_cons, parseParams, if_pos hc] at hparams
  obtain ⟨⟨q, ts₃⟩, hq, hparams⟩ := Option.bind_eq_some_iff.1 hparams
  obtain ⟨⟨qs, ts₄⟩, hqs, hparams⟩ := Option.bind_eq_some_iff.1 hparams
  cases hparams
  refine ⟨d, hd, ?_⟩
  -- No more parameters: what is left is left as it is.
  have hleft : ts₃ = d :: rest := by
    cases ts₃ with
    | nil =>
      rw [parseParams] at hqs
      · cases hqs
      · exact nofun
    | cons e ts₃ =>
      rw [parseParams] at hqs
      split at hqs
      · obtain ⟨⟨r, ts₅⟩, -, hqs⟩ := Option.bind_eq_some_iff.1 hqs
        obtain ⟨⟨rs, ts₆⟩, -, hqs⟩ := Option.bind_eq_some_iff.1 hqs
        cases hqs
      · cases hqs
        rfl
  rw [hq, hleft]

/-! ## What is left is shorter -/

theorem parseValue_length {ts rest : List Token} {v : Value}
    (h : parseValue ts = some (v, rest)) : rest.length < ts.length := by
  obtain ⟨t, rfl, -⟩ := parseValue_iff.1 h
  exact Nat.lt_succ_self _

theorem expect_length {type : TokenType} {ts rest : List Token} (h : expect type ts = some rest) :
    rest.length < ts.length := by
  obtain ⟨t, rfl, -⟩ := expect_eq_some h
  exact Nat.lt_succ_self _

theorem parseValues_length {ts rest : List Token} {vs : List Value}
    (h : parseValues ts = some (vs, rest)) : rest.length ≤ ts.length := by
  induction ts using parseValues.induct generalizing vs with
  | case1 c t ts hc ih =>
    rw [parseValues, if_pos hc] at h
    obtain ⟨v, -, h⟩ := Option.bind_eq_some_iff.1 h
    obtain ⟨⟨ws, rest'⟩, hws, h⟩ := Option.bind_eq_some_iff.1 h
    cases h
    exact Nat.le_trans (ih hws) (Nat.le_add_right ts.length 2)
  | case2 c t ts hc =>
    rw [parseValues, if_neg hc] at h
    cases h
    exact Nat.le_refl _
  | case3 ts hts =>
    rw [parseValues] at h
    · cases h
      exact Nat.le_refl _
    · exact hts

theorem parseList_length {close : TokenType} {ts rest : List Token} {l : ValueList}
    (h : parseList close ts = some (l, rest)) : rest.length < ts.length := by
  obtain ⟨⟨v, ts₁⟩, hv, h⟩ := Option.bind_eq_some_iff.1 h
  obtain ⟨⟨vs, ts₂⟩, hvs, h⟩ := Option.bind_eq_some_iff.1 h
  obtain ⟨ts₃, hclose, h⟩ := Option.bind_eq_some_iff.1 h
  cases h
  have h₁ := parseValue_length hv
  have h₂ := parseValues_length hvs
  have h₃ := expect_length hclose
  omega

theorem length_of_map {α β : Type} {p : Option (α × List Token)} {f : α → β} {b : β}
    {ts rest : List Token} (hp : ∀ a rest, p = some (a, rest) → rest.length < ts.length)
    (h : (p.map fun x => (f x.1, x.2)) = some (b, rest)) : rest.length < ts.length := by
  obtain ⟨⟨a, ts'⟩, ha, h⟩ := Option.map_eq_some_iff.1 h
  cases h
  exact hp a _ ha

theorem parseIn_length {ts rest : List Token} {clause : InClause}
    (h : parseIn ts = some (clause, rest)) : rest.length < ts.length := by
  cases ts with
  | nil => cases h
  | cons t ts =>
    rw [parseIn] at h
    split at h
    · exact Nat.lt_succ_of_lt (length_of_map (fun _ _ => parseList_length) h)
    · exact Nat.lt_succ_of_lt (length_of_map (fun _ _ => parseList_length) h)
    · exact length_of_map (fun _ _ => parseValue_length) h

theorem parseNegatable_length {negated : Bool} {ts rest : List Token} {operation : Operation}
    (h : parseNegatable negated ts = some (operation, rest)) : rest.length < ts.length := by
  cases ts with
  | nil => cases h
  | cons t ts =>
    rw [parseNegatable] at h
    have hvalue : ∀ {f : Value → Operation},
        ((parseValue ts).map fun x => (f x.1, x.2)) = some (operation, rest) →
        rest.length < ts.length + 1 :=
      fun h => Nat.lt_succ_of_lt (length_of_map (fun _ _ => parseValue_length) h)
    split at h
    · exact hvalue h
    · exact hvalue h
    · obtain ⟨⟨low, ts₁⟩, hlow, h⟩ := Option.bind_eq_some_iff.1 h
      obtain ⟨ts₂, hand, h⟩ := Option.bind_eq_some_iff.1 h
      obtain ⟨⟨high, ts₃⟩, hhigh, h⟩ := Option.bind_eq_some_iff.1 h
      cases h
      have h₁ := parseValue_length hlow
      have h₂ := expect_length hand
      have h₃ := parseValue_length hhigh
      rw [List.length_cons]
      omega
    · exact Nat.lt_succ_of_lt (length_of_map (fun _ _ => parseIn_length)
        (f := fun clause =>
          if negated then Operation.notInClause clause else Operation.inClause clause) h)
    · cases h
      exact Nat.lt_succ_self _
    · exact hvalue h
    · exact hvalue h
    · cases h

theorem parseOperation_length {ts rest : List Token} {operation : Operation}
    (h : parseOperation ts = some (operation, rest)) : rest.length < ts.length := by
  cases ts with
  | nil => cases h
  | cons t ts =>
    rw [parseOperation] at h
    have hvalue : ∀ {f : Value → Operation},
        ((parseValue ts).map fun x => (f x.1, x.2)) = some (operation, rest) →
        rest.length < ts.length + 1 :=
      fun h => Nat.lt_succ_of_lt (length_of_map (fun _ _ => parseValue_length) h)
    split at h
    · exact hvalue h
    · exact hvalue h
    · exact hvalue h
    · exact hvalue h
    · exact hvalue h
    · exact hvalue h
    · exact hvalue h
    · exact Nat.lt_succ_of_lt (parseNegatable_length h)
    · exact parseNegatable_length h

theorem parseParam_length {ts rest : List Token} {param : FunctionParam}
    (h : parseParam ts = some (param, rest)) : rest.length < ts.length := by
  cases ts with
  | nil => cases h
  | cons t ts =>
    rw [parseParam] at h
    split at h
    · cases h
      exact Nat.lt_succ_self _
    · exact Nat.lt_succ_of_lt (length_of_map (fun _ _ => parseList_length) h)
    · obtain ⟨v, -, hv⟩ := Option.map_eq_some_iff.1 h
      cases hv
      exact Nat.lt_succ_self _

theorem parseParams_length {fuel : Nat} {ts rest : List Token} {params : List FunctionParam}
    (h : parseParams fuel ts = some (params, rest)) : rest.length ≤ ts.length := by
  induction fuel generalizing ts params with
  | zero => cases ts <;> cases h
  | succ fuel ih =>
    cases ts with
    | nil =>
      cases h
      exact Nat.le_refl _
    | cons c ts =>
      rw [parseParams] at h
      split at h
      · obtain ⟨⟨param, ts₁⟩, hparam, h⟩ := Option.bind_eq_some_iff.1 h
        obtain ⟨⟨params, ts₂⟩, hparams, h⟩ := Option.bind_eq_some_iff.1 h
        cases h
        have h₁ := parseParam_length hparam
        have h₂ := ih hparams
        rw [List.length_cons]
        omega
      · cases h
        exact Nat.le_refl _

theorem parseCall_length {name : FunctionName} {ts rest : List Token} {call : FunctionCall}
    (h : parseCall name ts = some (call, rest)) : rest.length < ts.length := by
  obtain ⟨ts₁, hopen, h⟩ := Option.bind_eq_some_iff.1 h
  obtain ⟨⟨first, ts₂⟩, hfirst, h⟩ := Option.bind_eq_some_iff.1 h
  obtain ⟨⟨params, ts₃⟩, hparams, h⟩ := Option.bind_eq_some_iff.1 h
  obtain ⟨ts₄, hclose, h⟩ := Option.bind_eq_some_iff.1 h
  cases h
  have h₁ := expect_length hopen
  have h₂ := parseParam_length hfirst
  have h₃ := parseParams_length hparams
  have h₄ := expect_length hclose
  omega

/-! ## What the parser reads -/

mutual

/-- An `orExpression` at the start of a list of tokens. -/
inductive ReadsOr : List Token → OrExpression → List Token → Prop
  | last {ts rest : List Token} {e : AndExpression} :
      ReadsAnd ts e rest → (∀ t ∈ rest.head?, t.type ≠ .or) → ReadsOr ts (.last e) rest
  | or {ts ts' rest : List Token} {t : Token} {e : AndExpression} {r : OrExpression} :
      ReadsAnd ts e (t :: ts') → t.type = .or → ReadsOr ts' r rest → ReadsOr ts (.or e r) rest

inductive ReadsAnd : List Token → AndExpression → List Token → Prop
  | last {ts rest : List Token} {e : UnaryExpression} :
      ReadsUnary ts e rest → (∀ t ∈ rest.head?, t.type ≠ .and ∧ ¬ t.startsUnary) →
      ReadsAnd ts (.last e) rest
  | and {ts ts' rest : List Token} {t : Token} {e : UnaryExpression} {r : AndExpression} :
      ReadsUnary ts e (t :: ts') → t.type = .and → ReadsAnd ts' r rest → ReadsAnd ts (.and e r) rest
  | next {ts ts' rest : List Token} {t : Token} {e : UnaryExpression} {r : AndExpression} :
      ReadsUnary ts e (t :: ts') → t.type ≠ .and → t.startsUnary → ReadsAnd (t :: ts') r rest →
      ReadsAnd ts (.and e r) rest

inductive ReadsUnary : List Token → UnaryExpression → List Token → Prop
  | not {ts rest : List Token} {t : Token} {p : Primary} :
      t.type = .not → ReadsPrimary ts p rest → ReadsUnary (t :: ts) (.not p) rest
  | plain {ts rest : List Token} {t : Token} {p : Primary} :
      t.type ≠ .not → ReadsPrimary (t :: ts) p rest → ReadsUnary (t :: ts) (.plain p) rest

inductive ReadsPrimary : List Token → Primary → List Token → Prop
  | group {ts rest : List Token} {t c : Token} {e : OrExpression} :
      t.type = .lparen → ReadsOr ts e (c :: rest) → c.type = .rparen →
      ReadsPrimary (t :: ts) (.group e) rest
  | comparison {ts rest : List Token} {t : Token} {operation : Operation} :
      t.type = .key → parseOperation ts = some (operation, rest) →
      ReadsPrimary (t :: ts) (.comparison ⟨t.text, operation⟩) rest
  | key {ts : List Token} {t : Token} :
      t.type = .key → parseOperation ts = none → ReadsPrimary (t :: ts) (.key t.text) ts
  | quotedText {ts : List Token} {t : Token} :
      t.type = .quotedText → ReadsPrimary (t :: ts) (.fullText (.quotedText t.text)) ts
  | freeText {ts : List Token} {t : Token} :
      t.type = .freeText → ReadsPrimary (t :: ts) (.fullText (.freeText t.text)) ts
  | number {ts : List Token} {t : Token} :
      t.type = .number → ReadsPrimary (t :: ts) (.value (.number t.text)) ts
  | bool {ts : List Token} {t : Token} :
      t.type = .bool → ReadsPrimary (t :: ts) (.value (.bool t.text)) ts
  | functionCall {ts rest : List Token} {t : Token} {name : FunctionName} {call : FunctionCall} :
      t.function? = some name → parseCall name ts = some (call, rest) →
      ReadsPrimary (t :: ts) (.functionCall call) rest

end

mutual

theorem ReadsOr.length {ts rest : List Token} {e : OrExpression} :
    ReadsOr ts e rest → rest.length < ts.length
  | .last h _ => h.length
  | .or h _ hr => by
    have h₁ := h.length
    have h₂ := hr.length
    rw [List.length_cons] at h₁
    omega

theorem ReadsAnd.length {ts rest : List Token} {e : AndExpression} :
    ReadsAnd ts e rest → rest.length < ts.length
  | .last h _ => h.length
  | .and h _ hr => by
    have h₁ := h.length
    have h₂ := hr.length
    rw [List.length_cons] at h₁
    omega
  | .next h _ _ hr => Nat.lt_trans hr.length h.length

theorem ReadsUnary.length {ts rest : List Token} {e : UnaryExpression} :
    ReadsUnary ts e rest → rest.length < ts.length
  | .not _ h => Nat.lt_succ_of_lt h.length
  | .plain _ h => h.length

theorem ReadsPrimary.length {ts rest : List Token} {p : Primary} :
    ReadsPrimary ts p rest → rest.length < ts.length
  | .group _ h _ => by
    have h₁ := h.length
    rw [List.length_cons] at h₁ ⊢
    omega
  | .comparison _ h => Nat.lt_succ_of_lt (parseOperation_length h)
  | .key _ _ => Nat.lt_succ_self _
  | .quotedText _ => Nat.lt_succ_self _
  | .freeText _ => Nat.lt_succ_self _
  | .number _ => Nat.lt_succ_self _
  | .bool _ => Nat.lt_succ_self _
  | .functionCall _ h => Nat.lt_succ_of_lt (parseCall_length h)

end

/-- What the parser returns, it has read. -/
theorem reads_of_parse (fuel : Nat) :
    (∀ ts e rest, parseOr fuel ts = some (e, rest) → ReadsOr ts e rest) ∧
    (∀ ts e rest, parseAnd fuel ts = some (e, rest) → ReadsAnd ts e rest) ∧
    (∀ ts e rest, parseUnary fuel ts = some (e, rest) → ReadsUnary ts e rest) ∧
    ∀ ts p rest, parsePrimary fuel ts = some (p, rest) → ReadsPrimary ts p rest := by
  induction fuel with
  | zero => refine ⟨?_, ?_, ?_, ?_⟩ <;> exact fun _ _ _ h => nomatch h
  | succ fuel ih =>
    -- One case for each rule of the grammar; what ends a list is that no operator follows.
    obtain ⟨ihOr, ihAnd, ihUnary, ihPrimary⟩ := ih
    refine ⟨fun ts e rest h => ?_, fun ts e rest h => ?_, fun ts e rest h => ?_,
      fun ts p rest h => ?_⟩
    · rw [parseOr] at h
      obtain ⟨⟨expr, ts₁⟩, hand, h⟩ := Option.bind_eq_some_iff.1 h
      have hreads := ihAnd _ _ _ hand
      cases ts₁ with
      | nil =>
        cases h
        refine .last hreads fun t ht => ?_
        cases ht
      | cons t ts₁ =>
        dsimp only at h
        split at h
        · next hor =>
            obtain ⟨⟨r, ts₂⟩, hr, h⟩ := Option.bind_eq_some_iff.1 h
            cases h
            exact .or hreads hor (ihOr _ _ _ hr)
        · next hor =>
            cases h
            refine .last hreads ?_
            rintro _ ⟨⟩
            exact hor
    · rw [parseAnd] at h
      obtain ⟨⟨expr, ts₁⟩, hunary, h⟩ := Option.bind_eq_some_iff.1 h
      have hreads := ihUnary _ _ _ hunary
      cases ts₁ with
      | nil =>
        cases h
        refine .last hreads fun t ht => ?_
        cases ht
      | cons t ts₁ =>
        dsimp only at h
        split at h
        · next hand =>
            obtain ⟨⟨r, ts₂⟩, hr, h⟩ := Option.bind_eq_some_iff.1 h
            cases h
            exact .and hreads hand (ihAnd _ _ _ hr)
        · next hand =>
            split at h
            · next hstarts =>
                obtain ⟨⟨r, ts₂⟩, hr, h⟩ := Option.bind_eq_some_iff.1 h
                cases h
                exact .next hreads hand hstarts (ihAnd _ _ _ hr)
            · next hstarts =>
                cases h
                refine .last hreads ?_
                rintro _ ⟨⟩
                exact ⟨hand, hstarts⟩
    · cases ts with
      | nil => cases h
      | cons t ts =>
        rw [parseUnary] at h
        split at h
        · next hnot =>
            obtain ⟨⟨p, ts₁⟩, hp, h⟩ := Option.map_eq_some_iff.1 h
            cases h
            exact .not hnot (ihPrimary _ _ _ hp)
        · next hnot =>
            obtain ⟨⟨p, ts₁⟩, hp, h⟩ := Option.map_eq_some_iff.1 h
            cases h
            exact .plain hnot (ihPrimary _ _ _ hp)
    · cases ts with
      | nil => cases h
      | cons t ts =>
        rw [parsePrimary] at h
        split at h
        · next htype =>
            obtain ⟨⟨expr, ts₁⟩, he, h⟩ := Option.bind_eq_some_iff.1 h
            obtain ⟨ts₂, hclose, h⟩ := Option.bind_eq_some_iff.1 h
            cases h
            obtain ⟨c, rfl, hc⟩ := expect_eq_some hclose
            exact .group htype (ihOr _ _ _ he) hc
        · next htype =>
            split at h
            · next hop =>
                cases h
                exact .comparison htype hop
            · next hop =>
                cases h
                exact .key htype hop
        · next htype =>
            cases h
            exact .quotedText htype
        · next htype =>
            cases h
            exact .freeText htype
        · next htype =>
            cases h
            exact .number htype
        · next htype =>
            cases h
            exact .bool htype
        · obtain ⟨name, hname, h⟩ := Option.bind_eq_some_iff.1 h
          obtain ⟨⟨call, ts₁⟩, hcall, h⟩ := Option.bind_eq_some_iff.1 h
          cases h
          exact .functionCall hname hcall

theorem exists_fuel {k fuel : Nat} (h : k + 1 ≤ fuel) : ∃ n, fuel = n + 1 :=
  Nat.exists_eq_succ_of_ne_zero (by omega)

mutual

theorem ReadsOr.parseOr_eq {ts rest : List Token} {e : OrExpression} {fuel : Nat}
    (hfuel : 4 * ts.length + 4 ≤ fuel) : ReadsOr ts e rest → parseOr fuel ts = some (e, rest)
  | .last h hrest => by
    obtain ⟨fuel, rfl⟩ := exists_fuel hfuel
    rw [parseOr, h.parseAnd_eq (by omega)]
    cases rest with
    | nil => rfl
    | cons t rest => exact if_neg (hrest t rfl)
  | .or h ht hr => by
    obtain ⟨fuel, rfl⟩ := exists_fuel hfuel
    have hlen := h.length
    rw [List.length_cons] at hlen
    rw [parseOr, h.parseAnd_eq (by omega)]
    refine (if_pos ht).trans ?_
    rw [hr.parseOr_eq (by omega)]
    rfl

theorem ReadsAnd.parseAnd_eq {ts rest : List Token} {e : AndExpression} {fuel : Nat}
    (hfuel : 4 * ts.length + 3 ≤ fuel) : ReadsAnd ts e rest → parseAnd fuel ts = some (e, rest)
  | .last h hrest => by
    obtain ⟨fuel, rfl⟩ := exists_fuel hfuel
    rw [parseAnd, h.parseUnary_eq (by omega)]
    cases rest with
    | nil => rfl
    | cons t rest => exact (if_neg (hrest t rfl).1).trans (if_neg (hrest t rfl).2)
  | .and h ht hr => by
    obtain ⟨fuel, rfl⟩ := exists_fuel hfuel
    have hlen := h.length
    rw [List.length_cons] at hlen
    rw [parseAnd, h.parseUnary_eq (by omega)]
    refine (if_pos ht).trans ?_
    rw [hr.parseAnd_eq (by omega)]
    rfl
  | .next h ht hstarts hr => by
    obtain ⟨fuel, rfl⟩ := exists_fuel hfuel
    have hlen := h.length
    rw [parseAnd, h.parseUnary_eq (by omega)]
    refine (if_neg ht).trans ((if_pos hstarts).trans ?_)
    rw [hr.parseAnd_eq (by omega)]
    rfl

theorem ReadsUnary.parseUnary_eq {ts rest : List Token} {e : UnaryExpression} {fuel : Nat}
    (hfuel : 4 * ts.length + 2 ≤ fuel) :
    ReadsUnary ts e rest → parseUnary fuel ts = some (e, rest)
  | .not ht h => by
    obtain ⟨fuel, rfl⟩ := exists_fuel hfuel
    rw [List.length_cons] at hfuel
    rw [parseUnary, if_pos ht, h.parsePrimary_eq (by omega)]
    rfl
  | .plain ht h => by
    obtain ⟨fuel, rfl⟩ := exists_fuel hfuel
    rw [parseUnary, if_neg ht, h.parsePrimary_eq (by omega)]
    rfl

theorem ReadsPrimary.parsePrimary_eq {ts rest : List Token} {p : Primary} {fuel : Nat}
    (hfuel : 4 * ts.length + 1 ≤ fuel) :
    ReadsPrimary ts p rest → parsePrimary fuel ts = some (p, rest)
  | .group ht h hc => by
    obtain ⟨fuel, rfl⟩ := exists_fuel hfuel
    rw [List.length_cons] at hfuel
    simp only [parsePrimary, ht, h.parseOr_eq (Nat.le_of_succ_le_succ hfuel),
      Option.bind_eq_bind, Option.bind_some, expect_cons hc]
    rfl
  | .comparison ht h => by
    obtain ⟨fuel, rfl⟩ := exists_fuel hfuel
    simp only [parsePrimary, ht, h]
  | .key ht h => by
    obtain ⟨fuel, rfl⟩ := exists_fuel hfuel
    simp only [parsePrimary, ht, h]
  | .quotedText ht => by
    obtain ⟨fuel, rfl⟩ := exists_fuel hfuel
    simp only [parsePrimary, ht]
  | .freeText ht => by
    obtain ⟨fuel, rfl⟩ := exists_fuel hfuel
    simp only [parsePrimary, ht]
  | .number ht => by
    obtain ⟨fuel, rfl⟩ := exists_fuel hfuel
    simp only [parsePrimary, ht]
  | .bool ht => by
    obtain ⟨fuel, rfl⟩ := exists_fuel hfuel
    simp only [parsePrimary, ht]
  | .functionCall hname h => by
    obtain ⟨fuel, rfl⟩ := exists_fuel hfuel
    rw [parsePrimary]
    -- A function's name has none of the types before it.
    split
    case h_7 => simp only [hname, h, Option.bind_eq_bind, Option.bind_some, Option.pure_def]
    all_goals
      next ht =>
        rw [Token.function?, ht] at hname
        cases hname

end

theorem ReadsUnary.parseOperation_eq {t : Token} {ts rest : List Token} {c : Comparison}
    (h : ReadsUnary (t :: ts) (.plain (.comparison c)) rest) :
    t.text = c.key ∧ parseOperation ts = some (c.operation, rest) := by
  cases h with
  | plain _ h =>
    cases h with
    | comparison _ h => exact ⟨rfl, h⟩

theorem ReadsPrimary.parseCall_eq {t : Token} {ts rest : List Token} {call : FunctionCall}
    (h : ReadsPrimary (t :: ts) (.functionCall call) rest) :
    ∃ name, t.function? = some name ∧ parseCall name ts = some (call, rest) := by
  cases h with
  | functionCall hname h => exact ⟨_, hname, h⟩

/-- There is one way to read. -/
theorem ReadsUnary.unique {ts rest rest' : List Token} {e e' : UnaryExpression}
    (h : ReadsUnary ts e rest) (h' : ReadsUnary ts e' rest') : e = e' ∧ rest = rest' := by
  have hparse := h.parseUnary_eq (Nat.le_refl _)
  rw [h'.parseUnary_eq (Nat.le_refl _)] at hparse
  cases hparse
  exact ⟨rfl, rfl⟩

/-- What an expression is parsed as is what the parser reads to its end. -/
theorem parseQuery_eq_some_iff {ts : List Token} {e : OrExpression} :
    parseQuery ts = some e ↔ ReadsOr ts e [] := by
  constructor
  · intro h
    rw [parseQuery] at h
    split at h
    · next hparse =>
        cases h
        exact (reads_of_parse _).1 _ _ _ hparse
    · cases h
  · intro h
    rw [parseQuery, h.parseOr_eq (Nat.le_refl _)]

end Signoz.FilterQuery
