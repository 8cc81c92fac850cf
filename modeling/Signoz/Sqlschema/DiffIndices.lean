import Signoz.Transition.MigrateCommon
import Mathlib.Algebra.Group.Nat.Defs
import Mathlib.Data.List.Nodup
import Mathlib.Data.Option.Basic

/-!
# The difference of two lists of indices

`DiffIndices` looks for each old index among the new ones by value. An old index with a name of its
own that is found there is dropped and made again, but what is made is the new index at the old
one's position. So the statements leave the new indices exactly when every such index stands at its
own position among the new ones (`diffIndices_reaches_iff`); elsewhere the index is lost, or the
position is past the end.

Predicates are compared as `normalize` writes them.
-/

namespace Signoz.Sqlschema

open Transition (trimSpace)

/-! ## Predicates -/

/-- The loop of `hasWrappingParentheses`; `skip` on the second of two quotes that stand for one. -/
def wrapsLoop : (depth : Int) → (inSingle inDouble skip : Bool) → List Char → Bool
  | depth, _, _, _, [] => depth = 0
  | depth, inSingle, inDouble, true, _ :: cs => wrapsLoop depth inSingle inDouble false cs
  | depth, inSingle, inDouble, false, c :: cs =>
    if c = '\'' then
      if inDouble then wrapsLoop depth inSingle inDouble false cs
      else if inSingle && cs.head? = some '\'' then wrapsLoop depth inSingle inDouble true cs
      else wrapsLoop depth (!inSingle) inDouble false cs
    else if c = '"' then
      if inSingle then wrapsLoop depth inSingle inDouble false cs
      else if inDouble && cs.head? = some '"' then wrapsLoop depth inSingle inDouble true cs
      else wrapsLoop depth inSingle (!inDouble) false cs
    else if inSingle || inDouble then wrapsLoop depth inSingle inDouble false cs
    else if c = '(' then wrapsLoop (depth + 1) inSingle inDouble false cs
    else if c = ')' then
      if depth - 1 = 0 && cs ≠ [] then false else wrapsLoop (depth - 1) inSingle inDouble false cs
    else wrapsLoop depth inSingle inDouble false cs

/-- `hasWrappingParentheses`. -/
def hasWrappingParentheses (s : List Char) : Bool := wrapsLoop 0 false false false s

theorem length_trimSpace_le (s : List Char) : (trimSpace s).length ≤ s.length := by
  have hfront := (List.dropWhile_suffix Transition.isSpace (l := s)).length_le
  have hback := (List.dropWhile_suffix Transition.isSpace
    (l := (s.dropWhile Transition.isSpace).reverse)).length_le
  rw [List.length_reverse] at hback
  rw [trimSpace, List.length_reverse]
  exact Nat.le_trans hback hfront

/-- `stripOuterParentheses`. -/
def stripOuterParentheses (s : List Char) : List Char :=
  if 2 ≤ (trimSpace s).length ∧ (trimSpace s).head? = some '(' ∧
      (trimSpace s).getLast? = some ')' ∧ hasWrappingParentheses (trimSpace s) then
    stripOuterParentheses (trimSpace s).tail.dropLast
  else trimSpace s
termination_by s.length
decreasing_by
  have := length_trimSpace_le s
  simp only [List.length_dropLast, List.length_tail]
  omega

/-- `consumeSingleQuotedLiteral` behind the opening quote: what it writes, and what follows. -/
def consumeSingleQuotedLiteral : List Char → List Char × List Char
  | [] => ([], [])
  | '\'' :: '\'' :: cs =>
    let (written, rest) := consumeSingleQuotedLiteral cs
    ('\'' :: '\'' :: written, rest)
  | '\'' :: cs => (['\''], cs)
  | c :: cs =>
    let (written, rest) := consumeSingleQuotedLiteral cs
    (c :: written, rest)

/-- `isSimpleUnquotedIdentifier`. A capital letter, of any alphabet, is none of the characters. -/
def isSimpleUnquotedIdentifier : List Char → Bool
  | [] => false
  | c :: cs =>
    let starts := fun c : Char => c.isLower || c = '_'
    starts c && cs.all fun c => starts c || c.isDigit

/-- `consumeDoubleQuotedToken`, with the text so far and the name in it: the token, and what
follows. -/
def consumeDoubleQuotedToken : (text ident : List Char) → List Char → List Char × List Char
  | text, _, [] => (text, [])
  | text, ident, '"' :: '"' :: cs =>
    consumeDoubleQuotedToken (text ++ ['"', '"']) (ident ++ ['"']) cs
  | text, ident, '"' :: cs =>
    (if isSimpleUnquotedIdentifier ident then ident else text ++ ['"'], cs)
  | text, ident, c :: cs => consumeDoubleQuotedToken (text ++ [c]) (ident ++ [c]) cs

theorem length_consumeSingleQuotedLiteral (cs : List Char) :
    (consumeSingleQuotedLiteral cs).2.length ≤ cs.length := by
  induction cs using consumeSingleQuotedLiteral.induct with
  | case1 => exact Nat.le_refl 0
  | case2 cs written rest h ih =>
    rw [consumeSingleQuotedLiteral]
    simp only [List.length_cons]
    omega
  | case3 cs hnot =>
    rw [consumeSingleQuotedLiteral]
    · exact Nat.le_succ _
    · exact hnot
  | case4 c cs hpair hquote written rest h ih =>
    rw [consumeSingleQuotedLiteral]
    · simp only [List.length_cons]
      omega
    · exact hpair
    · exact hquote

theorem length_consumeDoubleQuotedToken (text ident cs : List Char) :
    (consumeDoubleQuotedToken text ident cs).2.length ≤ cs.length := by
  induction text, ident, cs using consumeDoubleQuotedToken.induct with
  | case1 => exact Nat.le_refl 0
  | case2 text ident cs ih =>
    rw [consumeDoubleQuotedToken]
    simp only [List.length_cons]
    omega
  | case3 text ident cs hnot =>
    rw [consumeDoubleQuotedToken]
    · exact Nat.le_succ _
    · exact hnot
  | case4 text ident c cs hpair hquote ih =>
    rw [consumeDoubleQuotedToken]
    · simp only [List.length_cons]
      omega
    · exact hpair
    · exact hquote

/-- The loop of `normalize`. -/
def normalizeLoop (output : List Char) : List Char → List Char
  | [] => output
  | c :: cs =>
    if c ∈ [' ', '\t', '\n', '\r'] then
      normalizeLoop (if output ≠ [] ∧ output.getLast? ≠ some ' ' then output ++ [' '] else output)
        cs
    else if c = '\'' then
      normalizeLoop (output ++ '\'' :: (consumeSingleQuotedLiteral cs).1)
        (consumeSingleQuotedLiteral cs).2
    else if c = '"' then
      normalizeLoop (output ++ (consumeDoubleQuotedToken ['"'] [] cs).1)
        (consumeDoubleQuotedToken ['"'] [] cs).2
    else normalizeLoop (output ++ [c]) cs
termination_by cs => cs.length
decreasing_by
  · exact Nat.lt_succ_self _
  · exact Nat.lt_succ_of_le (length_consumeSingleQuotedLiteral cs)
  · exact Nat.lt_succ_of_le (length_consumeDoubleQuotedToken _ _ cs)
  · exact Nat.lt_succ_self _

/-- `normalize`. -/
def normalize (input : String) : String :=
  String.ofList (trimSpace (normalizeLoop [] (stripOuterParentheses (trimSpace input.toList))))

/-- The 32-bit FNV-1a sum. -/
def fnv32a (bytes : List UInt8) : Nat :=
  bytes.foldl (fun sum byte => (sum ^^^ byte.toNat) * 16777619 % 2 ^ 32) 2166136261

/-- `hash`: the sum of the normalized predicate in eight hexadecimal digits. -/
def whereHash (input : String) : String :=
  let digits := Nat.toDigits 16 (fnv32a (normalize input).toUTF8.toList)
  String.ofList (List.replicate (8 - digits.length) '0' ++ digits)

/-! ## Indices -/

/-- `UniqueIndex`. -/
structure UniqueIndex where
  tableName : String
  columnNames : List String
  name : String

/-- `PartialUniqueIndex`. -/
structure PartialUniqueIndex where
  tableName : String
  columnNames : List String
  whereText : String
  name : String

/-- `Index`. -/
inductive Index where
  | unique (index : UniqueIndex)
  | partialUnique (index : PartialUniqueIndex)

/-- `Name` of a unique index. -/
def UniqueIndex.fullName (index : UniqueIndex) : String :=
  if index.name ≠ "" then index.name
  else "uq_" ++ index.tableName ++ "_" ++ "_".intercalate index.columnNames

/-- `Name` of a partial unique index. -/
def PartialUniqueIndex.fullName (index : PartialUniqueIndex) : String :=
  if index.name ≠ "" then index.name
  else "puq_" ++ index.tableName ++ "_" ++ "_".intercalate index.columnNames ++ "_" ++
    whereHash index.whereText

/-- What a unique index is over. The predicate is that of a partial index. -/
structure IndexDefinition where
  table : String
  columns : List String
  predicate : Option String

/-- The statements about indices. -/
inductive IndexStatement where
  /-- With `IF NOT EXISTS`. -/
  | create (name : String) (definition : IndexDefinition)
  /-- With `IF EXISTS`. -/
  | drop (name : String)

def IndexStatement.name : IndexStatement → String
  | create name _ => name
  | drop name => name

namespace Index

/-- `Name`. -/
def name : Index → String
  | unique index => index.fullName
  | partialUnique index => index.fullName

/-- `IsNamed`. -/
def isNamed : Index → Bool
  | unique index => index.name ≠ ""
  | partialUnique index => index.name ≠ ""

def tableName : Index → String
  | unique index => index.tableName
  | partialUnique index => index.tableName

/-- `Columns`. -/
def columns : Index → List String
  | unique index => index.columnNames
  | partialUnique index => index.columnNames

/-- The predicate of a partial index. -/
def predicate : Index → Option String
  | unique _ => none
  | partialUnique index => some index.whereText

/-- `Equals`. -/
def equals : Index → Index → Bool
  | unique index, unique other =>
    index.fullName = other.fullName && index.columnNames = other.columnNames
  | partialUnique index, partialUnique other =>
    index.fullName = other.fullName && index.columnNames = other.columnNames &&
      normalize index.whereText = normalize other.whereText
  | _, _ => false

def definition (index : Index) : IndexDefinition :=
  ⟨index.tableName, index.columns, index.predicate⟩

/-- `ToCreateSQL`. -/
def toCreateSQL (index : Index) : IndexStatement := .create index.name index.definition

/-- `ToDropSQL`. -/
def toDropSQL (index : Index) : IndexStatement := .drop index.name

end Index

/-- `findIndex`, as far as it is used: whether the index is found. -/
def foundIn (indices : List Index) (index : Index) : Bool := indices.any index.equals

/-- The first loop of `DiffIndices`, from a position on; `none` when it indexes past the end. -/
def dropLoop (newIndices : List Index) : (i : Nat) → List Index → Option (List IndexStatement)
  | _, [] => some []
  | i, oldIndex :: oldIndices =>
    if !foundIn newIndices oldIndex then
      (dropLoop newIndices (i + 1) oldIndices).map (oldIndex.toDropSQL :: ·)
    else if oldIndex.isNamed then
      match newIndices[i]? with
      | some newIndex =>
        (dropLoop newIndices (i + 1) oldIndices).map
          (oldIndex.toDropSQL :: newIndex.toCreateSQL :: ·)
      | none => none
    else dropLoop newIndices (i + 1) oldIndices

/-- `DiffIndices`; `none` for the panic. -/
def diffIndices (oldIndices newIndices : List Index) : Option (List IndexStatement) :=
  (dropLoop newIndices 0 oldIndices).map fun sqls =>
    sqls ++ (newIndices.filter fun newIndex => !foundIn oldIndices newIndex).map Index.toCreateSQL

/-! ## What the statements leave -/

/-- The indices of a database, by name. -/
abbrev IndexStore := String → Option IndexDefinition

/-- A database holds exactly these indices. -/
def holding (indices : List Index) : IndexStore :=
  fun name => (indices.find? fun index => index.name = name).map Index.definition

/-- What a statement makes of the index of a name. -/
def IndexStatement.at (name : String) (held : Option IndexDefinition) :
    IndexStatement → Option IndexDefinition
  | create created definition => if created = name then held <|> some definition else held
  | drop dropped => if dropped = name then none else held

/-- A statement is run. -/
def IndexStatement.exec (store : IndexStore) (statement : IndexStatement) : IndexStore :=
  fun name => statement.at name (store name)

/-- Two definitions say the same, with their predicates as `normalize` writes them. -/
def IndexDefinition.Same (definition other : IndexDefinition) : Prop :=
  definition.table = other.table ∧ definition.columns = other.columns ∧
    definition.predicate.map normalize = other.predicate.map normalize

/-- The statements of `DiffIndices` are there, and leave exactly the new indices of the old ones. -/
def ReachesNewIndices (oldIndices newIndices : List Index) : Prop :=
  ∃ sqls, diffIndices oldIndices newIndices = some sqls ∧
    ∀ name, Option.Rel IndexDefinition.Same
      (sqls.foldl IndexStatement.exec (holding oldIndices) name) (holding newIndices name)

/-- An old index that is found among the new ones, and has a name of its own, stands there at its
own position. -/
def NamedInPlace (oldIndices newIndices : List Index) : Prop :=
  ∀ (i : Nat) (oldIndex : Index), oldIndices[i]? = some oldIndex → oldIndex.isNamed →
    foundIn newIndices oldIndex →
    ∃ newIndex, newIndices[i]? = some newIndex ∧ oldIndex.equals newIndex

/-! ## Finding indices -/

section Finding

variable {x y : Index} {indices : List Index}

theorem name_of_equals (h : x.equals y) : x.name = y.name := by
  cases x <;> cases y <;> simp_all [Index.equals, Index.name]

theorem equals_comm (x y : Index) : x.equals y = y.equals x := by
  cases x <;> cases y <;> simp [Index.equals, eq_comm]

/-- Equal indices of one table are over the same. -/
theorem same_of_equals (h : x.equals y) (htable : x.tableName = y.tableName) :
    x.definition.Same y.definition := by
  refine ⟨htable, ?_⟩
  cases x <;> cases y <;>
    simp_all [Index.equals, Index.definition, Index.columns, Index.predicate]

theorem same_self (definition : IndexDefinition) : definition.Same definition := ⟨rfl, rfl, rfl⟩

theorem foundIn_iff : foundIn indices x = true ↔ ∃ y ∈ indices, x.equals y = true :=
  List.any_eq_true

/-- With different names there is one index of a name. -/
theorem eq_of_name (hnodup : (indices.map Index.name).Nodup) (hx : x ∈ indices) (hy : y ∈ indices)
    (h : x.name = y.name) : x = y :=
  List.inj_on_of_nodup_map hnodup hx hy h

theorem name_of_find? {name : String}
    (h : indices.find? (fun index => index.name = name) = some x) :
    x ∈ indices ∧ x.name = name :=
  ⟨List.mem_of_find?_eq_some h, by simpa using List.find?_some h⟩

theorem find?_name (hnodup : (indices.map Index.name).Nodup) (hx : x ∈ indices) :
    (indices.find? fun index => index.name = x.name) = some x := by
  cases h : indices.find? fun index => index.name = x.name with
  | none => simpa using List.find?_eq_none.1 h x hx
  | some y =>
    obtain ⟨hy, hname⟩ := name_of_find? h
    rw [eq_of_name hnodup hy hx hname]

end Finding

/-! ## Running the statements -/

theorem foldl_exec (name : String) : ∀ (sqls : List IndexStatement) (store : IndexStore),
    sqls.foldl IndexStatement.exec store name =
      sqls.foldl (IndexStatement.at name) (store name) := by
  intro sqls
  induction sqls with
  | nil => intro store; rfl
  | cons sql sqls ih =>
    intro store
    rw [List.foldl_cons, List.foldl_cons, ih]
    rfl

variable {name : String}

theorem at_of_ne {sql : IndexStatement} (h : sql.name ≠ name) (held : Option IndexDefinition) :
   sql.at name held = held := by
  cases sql with
  | create created definition => exact if_neg h
  | drop dropped => exact if_neg h

/-- Statements about other indices leave this one. -/
theorem foldl_at_of_ne : ∀ {sqls : List IndexStatement},
    (∀ sql ∈ sqls, sql.name ≠ name) → ∀ held, sqls.foldl (IndexStatement.at name) held = held := by
  intro sqls
  induction sqls with
  | nil => intro _ held; rfl
  | cons sql sqls ih =>
    intro h held
    rw [List.foldl_cons, at_of_ne (h sql List.mem_cons_self)]
    exact ih (fun sql hsql => h sql (List.mem_cons_of_mem _ hsql)) held

variable {indices : List Index}

/-- Creating other indices leaves this one. -/
theorem foldl_creates_of_ne {p : Index → Bool} (h : ∀ y ∈ indices, p y → y.name ≠ name)
    (held : Option IndexDefinition) :
    ((indices.filter p).map Index.toCreateSQL).foldl (IndexStatement.at name) held = held := by
  apply foldl_at_of_ne
  intro sql hsql
  obtain ⟨y, hy, rfl⟩ := List.mem_map.1 hsql
  obtain ⟨hy, hp⟩ := List.mem_filter.1 hy
  exact h y hy hp

/-- An index is created where there is none of its name. -/
theorem foldl_creates_of_mem {p : Index → Bool} {y : Index} (hp : p y) :
    ∀ {indices : List Index}, (indices.map Index.name).Nodup → y ∈ indices →
      ((indices.filter p).map Index.toCreateSQL).foldl (IndexStatement.at y.name) none =
        some y.definition := by
  intro indices
  induction indices with
  | nil => intro _ hy; cases hy
  | cons x indices ih =>
    intro hnodup hy
    obtain ⟨hx, hnodup⟩ := List.nodup_cons.1 hnodup
    rcases List.mem_cons.1 hy with rfl | hy
    · have hmade : y.toCreateSQL.at y.name none = some y.definition := if_pos rfl
      rw [List.filter_cons_of_pos hp, List.map_cons, List.foldl_cons, hmade]
      apply foldl_creates_of_ne
      intro z hz _ hname
      exact hx (hname ▸ List.mem_map_of_mem hz)
    · cases hpx : p x with
      | false =>
        rw [List.filter_cons_of_neg (by simp [hpx])]
        exact ih hnodup hy
      | true =>
        have hname : x.name ≠ y.name := fun hname => hx (hname ▸ List.mem_map_of_mem hy)
        have hleft : x.toCreateSQL.at y.name none = none := if_neg hname
        rw [List.filter_cons_of_pos hpx, List.map_cons, List.foldl_cons, hleft]
        exact ih hnodup hy

theorem holding_of_mem {x : Index} (hnodup : (indices.map Index.name).Nodup) (hx : x ∈ indices) :
    holding indices x.name = some x.definition := by
  rw [holding, find?_name hnodup hx, Option.map_some]

theorem holding_of_ne (h : ∀ x ∈ indices, x.name ≠ name) :
    holding indices name = none := by
  rw [holding, Option.map_eq_none_iff, List.find?_eq_none]
  intro x hx hname
  exact h x hx (by simpa using hname)

/-! ## The first loop -/

/-- As `NamedInPlace`, from a position on. -/
def InPlaceFrom (newIndices : List Index) (i : Nat) (oldIndices : List Index) : Prop :=
  ∀ (k : Nat) (x : Index), oldIndices[k]? = some x → x.isNamed → foundIn newIndices x →
    ∃ y, newIndices[i + k]? = some y ∧ x.equals y

theorem inPlaceFrom_zero {oldIndices newIndices : List Index} :
    InPlaceFrom newIndices 0 oldIndices ↔ NamedInPlace oldIndices newIndices := by
  simp only [InPlaceFrom, NamedInPlace, Nat.zero_add]

theorem inPlaceFrom_cons {newIndices oldIndices : List Index} {i : Nat} {x : Index} :
    InPlaceFrom newIndices i (x :: oldIndices) ↔
      (x.isNamed → foundIn newIndices x → ∃ y, newIndices[i]? = some y ∧ x.equals y) ∧
        InPlaceFrom newIndices (i + 1) oldIndices := by
  constructor
  · intro h
    refine ⟨h 0 x rfl, fun k y hy => ?_⟩
    have := h (k + 1) y hy
    rwa [← Nat.add_assoc, Nat.add_right_comm] at this
  · rintro ⟨hhead, htail⟩ k y hy
    cases k with
    | zero =>
      obtain rfl := Option.some.inj hy
      exact hhead
    | succ k =>
      rw [← Nat.add_assoc, Nat.add_right_comm]
      exact htail k y hy

section FirstLoop

variable {newIndices : List Index}

/-- What the first loop does when all is in place: it only touches the old indices, what is not
found goes, what has a name of its own becomes the new index, and the others stay. -/
structure DropsInPlace (newIndices oldIndices : List Index) (sqls : List IndexStatement) :
    Prop where
  names : ∀ sql ∈ sqls, sql.name ∈ oldIndices.map Index.name
  gone : ∀ x ∈ oldIndices, foundIn newIndices x = false →
    ∀ held, sqls.foldl (IndexStatement.at x.name) held = none
  made : ∀ x ∈ oldIndices, foundIn newIndices x → x.isNamed → ∃ y ∈ newIndices, x.equals y ∧
    ∀ held, sqls.foldl (IndexStatement.at x.name) held = some y.definition
  stays : ∀ x ∈ oldIndices, foundIn newIndices x → x.isNamed = false →
    ∀ held, sqls.foldl (IndexStatement.at x.name) held = held

/-- One more old index, with statements about it alone. -/
theorem DropsInPlace.cons {oldIndices : List Index} {sqls before : List IndexStatement} {x : Index}
    (h : DropsInPlace newIndices oldIndices sqls) (hx : x.name ∉ oldIndices.map Index.name)
    (hbefore : ∀ sql ∈ before, sql.name = x.name)
    (hgone : foundIn newIndices x = false →
      ∀ held, before.foldl (IndexStatement.at x.name) held = none)
    (hmade : foundIn newIndices x → x.isNamed → ∃ y ∈ newIndices, x.equals y ∧
      ∀ held, before.foldl (IndexStatement.at x.name) held = some y.definition)
    (hstays : foundIn newIndices x → x.isNamed = false →
      ∀ held, before.foldl (IndexStatement.at x.name) held = held) :
    DropsInPlace newIndices (x :: oldIndices) (before ++ sqls) := by
  have hhead : ∀ held, (before ++ sqls).foldl (IndexStatement.at x.name) held =
      before.foldl (IndexStatement.at x.name) held := by
    intro held
    rw [List.foldl_append]
    apply foldl_at_of_ne
    intro sql hsql hname
    exact hx (hname ▸ h.names sql hsql)
  have htail : ∀ z ∈ oldIndices, ∀ held, (before ++ sqls).foldl (IndexStatement.at z.name) held =
      sqls.foldl (IndexStatement.at z.name) held := by
    intro z hz held
    have hleft : before.foldl (IndexStatement.at z.name) held = held := by
      apply foldl_at_of_ne
      intro sql hsql hname
      apply hx
      rw [← hbefore sql hsql, hname]
      exact List.mem_map_of_mem hz
    rw [List.foldl_append, hleft]
  refine ⟨?_, ?_, ?_, ?_⟩
  · intro sql hsql
    rcases List.mem_append.1 hsql with hsql | hsql
    · rw [hbefore sql hsql]
      exact List.mem_cons_self
    · exact List.mem_cons_of_mem _ (h.names sql hsql)
  · intro z hz hfound held
    rcases List.mem_cons.1 hz with rfl | hz
    · rw [hhead, hgone hfound]
    · rw [htail z hz, h.gone z hz hfound]
  · intro z hz hfound hnamed
    rcases List.mem_cons.1 hz with rfl | hz
    · obtain ⟨y, hy, hequals, hstate⟩ := hmade hfound hnamed
      exact ⟨y, hy, hequals, fun held => (hhead held).trans (hstate held)⟩
    · obtain ⟨y, hy, hequals, hstate⟩ := h.made z hz hfound hnamed
      exact ⟨y, hy, hequals, fun held => (htail z hz held).trans (hstate held)⟩
  · intro z hz hfound hnamed held
    rcases List.mem_cons.1 hz with rfl | hz
    · rw [hhead, hstays hfound hnamed]
    · rw [htail z hz, h.stays z hz hfound hnamed]

theorem dropLoop_of_inPlace : ∀ {oldIndices : List Index} {i : Nat},
    (oldIndices.map Index.name).Nodup → InPlaceFrom newIndices i oldIndices →
    ∃ sqls, dropLoop newIndices i oldIndices = some sqls ∧
      DropsInPlace newIndices oldIndices sqls := by
  intro oldIndices
  induction oldIndices with
  | nil =>
    intro i _ _
    exact ⟨[], rfl, by simp, by simp, by simp, by simp⟩
  | cons x oldIndices ih =>
    intro i hnodup hplace
    obtain ⟨hx, hnodup⟩ := List.nodup_cons.1 hnodup
    obtain ⟨hhead, htail⟩ := inPlaceFrom_cons.1 hplace
    obtain ⟨sqls, hsqls, hdrops⟩ := ih hnodup htail
    cases hfound : foundIn newIndices x with
    | false =>
      refine ⟨[x.toDropSQL] ++ sqls, ?_, hdrops.cons hx ?_ ?_ ?_ ?_⟩
      · rw [dropLoop, hfound, hsqls]
        rfl
      · intro sql hsql
        rw [List.mem_singleton.1 hsql]
        rfl
      · intro _ held
        exact if_pos rfl
      · simp [hfound]
      · simp [hfound]
    | true =>
      cases hnamed : x.isNamed with
      | false =>
        refine ⟨[] ++ sqls, ?_, hdrops.cons hx ?_ ?_ ?_ ?_⟩
        · rw [dropLoop, hfound, hnamed, hsqls]
          rfl
        · simp
        · simp [hfound]
        · simp [hnamed]
        · exact fun _ _ _ => rfl
      | true =>
        obtain ⟨y, hy, hequals⟩ := hhead hnamed hfound
        have hname := name_of_equals hequals
        refine ⟨[x.toDropSQL, y.toCreateSQL] ++ sqls, ?_, hdrops.cons hx ?_ ?_ ?_ ?_⟩
        · rw [dropLoop, hfound, hnamed, hsqls, hy]
          rfl
        · intro sql hsql
          rcases List.mem_cons.1 hsql with rfl | hsql
          · rfl
          · rw [List.mem_singleton.1 hsql, hname]
            rfl
        · simp [hfound]
        · intro _ _
          refine ⟨y, List.mem_of_getElem? hy, hequals, fun held => ?_⟩
          simp [Index.toDropSQL, Index.toCreateSQL, IndexStatement.at, hname]
        · simp [hnamed]

/-- Where an index is not in place, the loop loses one that the second loop does not make. -/
theorem exists_lost_of_not_inPlace (hnew : (newIndices.map Index.name).Nodup) :
    ∀ {oldIndices : List Index} {i : Nat} {sqls : List IndexStatement},
    (oldIndices.map Index.name).Nodup → dropLoop newIndices i oldIndices = some sqls →
    ¬ InPlaceFrom newIndices i oldIndices →
    ∃ x ∈ oldIndices, foundIn newIndices x ∧
      ∀ held, sqls.foldl (IndexStatement.at x.name) held = none := by
  intro oldIndices
  induction oldIndices with
  | nil =>
    intro i sqls _ _ hplace
    refine absurd ?_ hplace
    intro k x hx
    cases hx
  | cons x oldIndices ih =>
    intro i sqls hnodup hloop hplace
    obtain ⟨hx, hnodup⟩ := List.nodup_cons.1 hnodup
    -- what the loop does for `x`, and the rest
    obtain ⟨before, rest, hrest, rfl, hbefore⟩ : ∃ before rest,
        dropLoop newIndices (i + 1) oldIndices = some rest ∧ sqls = before ++ rest ∧
        (x.isNamed → foundIn newIndices x → ∃ y, newIndices[i]? = some y ∧
          before = [x.toDropSQL, y.toCreateSQL]) := by
      rw [dropLoop] at hloop
      cases hfound : foundIn newIndices x with
      | false =>
        rw [hfound] at hloop
        obtain ⟨rest, hrest, rfl⟩ := Option.map_eq_some_iff.1 hloop
        exact ⟨[x.toDropSQL], rest, hrest, rfl, by simp⟩
      | true =>
        cases hnamed : x.isNamed with
        | false =>
          rw [hfound, hnamed] at hloop
          exact ⟨[], sqls, hloop, rfl, by simp⟩
        | true =>
          rw [hfound, hnamed] at hloop
          cases hy : newIndices[i]? with
          | none =>
            rw [hy] at hloop
            cases hloop
          | some y =>
            rw [hy] at hloop
            obtain ⟨rest, hrest, rfl⟩ := Option.map_eq_some_iff.1 hloop
            exact ⟨[x.toDropSQL, y.toCreateSQL], rest, hrest, rfl, fun _ _ => ⟨y, rfl, rfl⟩⟩
    by_cases htail : InPlaceFrom newIndices (i + 1) oldIndices
    · -- `x` is the last one that is not in place: nothing after it makes it again
      have hhead : ¬ (x.isNamed → foundIn newIndices x →
          ∃ y, newIndices[i]? = some y ∧ x.equals y) :=
        fun h => hplace (inPlaceFrom_cons.2 ⟨h, htail⟩)
      rw [Classical.not_imp, Classical.not_imp] at hhead
      obtain ⟨hnamed, hfound, hnone⟩ := hhead
      obtain ⟨y, hy, rfl⟩ := hbefore hnamed hfound
      have hother : y.name ≠ x.name := by
        intro hname
        obtain ⟨z, hz, hequals⟩ := foundIn_iff.1 hfound
        have hzy : z = y := eq_of_name hnew hz (List.mem_of_getElem? hy)
          ((name_of_equals hequals).symm.trans hname.symm)
        exact hnone ⟨y, hy, hzy ▸ hequals⟩
      obtain ⟨rest', hrest', hdrops⟩ := dropLoop_of_inPlace hnodup htail
      obtain rfl := Option.some.inj (hrest.symm.trans hrest')
      refine ⟨x, List.mem_cons_self, hfound, fun held => ?_⟩
      have hgone : [x.toDropSQL, y.toCreateSQL].foldl (IndexStatement.at x.name) held = none := by
        simp [Index.toDropSQL, Index.toCreateSQL, IndexStatement.at, hother]
      rw [List.foldl_append, hgone]
      apply foldl_at_of_ne
      intro sql hsql hname
      exact hx (hname ▸ hdrops.names sql hsql)
    · obtain ⟨z, hz, hfound, hlost⟩ := ih hnodup hrest htail
      refine ⟨z, List.mem_cons_of_mem _ hz, hfound, fun held => ?_⟩
      rw [List.foldl_append, hlost]

end FirstLoop

/-- The statements are there and leave exactly the new indices when, and only when, each old index
with a name of its own that is found among the new ones stands there at its own position. -/
theorem diffIndices_reaches_iff {oldIndices newIndices : List Index} {table : String}
    (holdTable : ∀ x ∈ oldIndices, x.tableName = table)
    (hnewTable : ∀ x ∈ newIndices, x.tableName = table)
    (hold : (oldIndices.map Index.name).Nodup) (hnew : (newIndices.map Index.name).Nodup) :
    ReachesNewIndices oldIndices newIndices ↔ NamedInPlace oldIndices newIndices := by
  rw [← inPlaceFrom_zero]
  constructor
  · rintro ⟨sqls, hsqls, hreach⟩
    by_contra hplace
    obtain ⟨drops, hloop, rfl⟩ := Option.map_eq_some_iff.1 hsqls
    obtain ⟨x, hx, hfound, hlost⟩ := exists_lost_of_not_inPlace hnew hold hloop hplace
    obtain ⟨y, hy, hequals⟩ := foundIn_iff.1 hfound
    have hreach := hreach x.name
    rw [foldl_exec, List.foldl_append, hlost, name_of_equals hequals, holding_of_mem hnew hy,
      foldl_creates_of_ne] at hreach
    · cases hreach
    · -- the new index of the name is found among the old ones
      intro z hz hmissing hname
      rw [eq_of_name hnew hz hy hname, foundIn_iff.2 ⟨x, hx, equals_comm x y ▸ hequals⟩] at hmissing
      cases hmissing
  · intro hplace
    obtain ⟨drops, hloop, hdrops⟩ := dropLoop_of_inPlace hold hplace
    refine ⟨_, by rw [diffIndices, hloop]; rfl, fun name => ?_⟩
    rw [foldl_exec, List.foldl_append]
    -- what is not found under a name of the new ones is made, as there is no index of the name left
    have hmade : ∀ held : Option IndexDefinition, held = none →
        (∀ y ∈ newIndices, y.name = name → foundIn oldIndices y = false) →
        Option.Rel IndexDefinition.Same
          (((newIndices.filter fun y => !foundIn oldIndices y).map Index.toCreateSQL).foldl
            (IndexStatement.at name) held) (holding newIndices name) := by
      rintro held rfl hmissing
      by_cases hmem : ∃ y ∈ newIndices, y.name = name
      · obtain ⟨y, hy, rfl⟩ := hmem
        rw [foldl_creates_of_mem (by simp [hmissing y hy rfl]) hnew hy, holding_of_mem hnew hy]
        exact .some (same_self _)
      · have hother : ∀ y ∈ newIndices, y.name ≠ name := fun y hy hname => hmem ⟨y, hy, hname⟩
        rw [foldl_creates_of_ne fun y hy _ => hother y hy, holding_of_ne hother]
        exact .none
    by_cases hmem : ∃ x ∈ oldIndices, x.name = name
    · obtain ⟨x, hx, rfl⟩ := hmem
      cases hfound : foundIn newIndices x with
      | false =>
        apply hmade _ (hdrops.gone x hx hfound _)
        intro y hy hname
        by_contra hsome
        obtain ⟨z, hz, hequals⟩ := foundIn_iff.1 (by simpa using hsome)
        have hzx : z = x := eq_of_name hold hz hx ((name_of_equals hequals).symm.trans hname)
        rw [hzx, equals_comm] at hequals
        rw [foundIn_iff.2 ⟨y, hy, hequals⟩] at hfound
        cases hfound
      | true =>
        obtain ⟨y, hy, hequals⟩ := foundIn_iff.1 hfound
        have hname := name_of_equals hequals
        have hkept : ∀ z ∈ newIndices, (!foundIn oldIndices z) = true → z.name ≠ x.name := by
          intro z hz hmissing hzname
          have hback : foundIn oldIndices y := foundIn_iff.2 ⟨x, hx, equals_comm x y ▸ hequals⟩
          rw [eq_of_name hnew hz hy (hzname.trans hname), hback] at hmissing
          cases hmissing
        rw [foldl_creates_of_ne hkept, hname, holding_of_mem hnew hy, ← hname]
        cases hnamed : x.isNamed with
        | false =>
          rw [hdrops.stays x hx hfound hnamed, holding_of_mem hold hx]
          exact .some (same_of_equals hequals ((holdTable x hx).trans (hnewTable y hy).symm))
        | true =>
          obtain ⟨z, hz, hzequals, hstate⟩ := hdrops.made x hx hfound hnamed
          have hzy : z = y := eq_of_name hnew hz hy ((name_of_equals hzequals).symm.trans hname)
          rw [hstate, hzy]
          exact .some (same_self _)
    · have hother : ∀ x ∈ oldIndices, x.name ≠ name := fun x hx hname => hmem ⟨x, hx, hname⟩
      have hleft : ∀ held, drops.foldl (IndexStatement.at name) held = held := by
        apply foldl_at_of_ne
        intro sql hsql hname
        obtain ⟨x, hx, hxname⟩ := List.mem_map.1 (hdrops.names sql hsql)
        exact hother x hx (hxname.trans hname)
      rw [hleft, holding_of_ne hother]
      apply hmade none rfl
      intro y _ hname
      by_contra hsome
      obtain ⟨z, hz, hequals⟩ := foundIn_iff.1 (by simpa using hsome)
      exact hother z hz ((name_of_equals hequals).symm.trans hname)

/-! ## A named index behind one that goes -/

/-- The users are unique by their mail address, in a database that has a name of its own for it. -/
def mailIndex : Index := .unique ⟨"users", ["email"], "users_email_key"⟩

/-- The users are unique by their name. -/
def nameIndex : Index := .unique ⟨"users", ["name"], ""⟩

/-- The users are unique by their phone number. -/
def phoneIndex : Index := .unique ⟨"users", ["phone"], ""⟩

/-- The mail index stays at its place, and the one behind it makes room for another. -/
theorem diffIndices_phoneIndex :
    ReachesNewIndices [mailIndex, nameIndex] [mailIndex, phoneIndex] := by
  have hin : NamedInPlace [mailIndex, nameIndex] [mailIndex, phoneIndex] := by
    intro i x hx hnamed hfound
    match i with
    | 0 =>
      obtain rfl := Option.some.inj hx
      exact ⟨mailIndex, rfl, by decide⟩
    | 1 =>
      obtain rfl := Option.some.inj hx
      exact absurd hnamed (by decide)
  exact (diffIndices_reaches_iff
    (by decide : ∀ x ∈ [mailIndex, nameIndex], x.tableName = "users") (by decide) (by decide)
    (by decide)).2 hin

/-- The mail index moves from the second to the first place: there is no new index at its
position. -/
theorem diffIndices_panics :
    diffIndices [nameIndex, mailIndex] [mailIndex] = none ∧
      ¬ ReachesNewIndices [nameIndex, mailIndex] [mailIndex] := by
  have hnone : diffIndices [nameIndex, mailIndex] [mailIndex] = none := by decide
  refine ⟨hnone, ?_⟩
  rintro ⟨sqls, hsqls, -⟩
  rw [hnone] at hsqls
  cases hsqls

end Signoz.Sqlschema
