import Signoz.FilterQuery.FieldKeyText
import Signoz.Lib.KeyedFold

/-!
# Duplicate keys of a builder query

`AdjustDuplicateKeys` (`collision.go`) walks over the select fields, the group-by keys and the
order-by keys with one map from names to keys. The first key of a name enters the map; each later
one takes from the entry the context or the data type in which it differs. The lists are then
rebuilt from the map, without repeated names. What the map holds for a name in the end depends only
on the keys of that name, in their order (`lookup_usages`), and a query with one key for each name
is left as it is (`adjustDuplicateKeys_of_settled`).
-/

namespace Signoz.QueryBuilder

open FilterQuery (FieldContext FieldDataType FieldKey)
open Lib.KeyedFold

/-! ## Queries -/

structure JSONDataTypeIndex where
  type : String
  columnExpression : String
  indexExpression : String

/-- `TelemetryFieldKey`. What no function here looks at (description, unit, signal, plans and
evolutions) is one value of `M`. -/
structure TelemetryFieldKey (M : Type) extends FieldKey where
  jsonDataType : Option String
  indexes : List JSONDataTypeIndex
  metadata : M

inductive OrderDirection where
  | asc
  | desc
  | unspecified
deriving DecidableEq

structure OrderBy (M : Type) where
  key : TelemetryFieldKey M
  direction : OrderDirection

/-- The three lists of `QueryBuilderQuery` that the keys are taken from. -/
structure QueryBuilderQuery (M : Type) where
  selectFields : List (TelemetryFieldKey M)
  groupBy : List (TelemetryFieldKey M)
  order : List (OrderBy M)

section

variable {M : Type}

/-- `String`. -/
def TelemetryFieldKey.string (key : TelemetryFieldKey M) : String :=
  "name=" ++ key.name ++
    (if key.fieldContext = .unspecified then "" else ",context=" ++ key.fieldContext.stringValue) ++
    (if key.fieldDataType = .unspecified then ""
      else ",datatype=" ++ key.fieldDataType.stringValue) ++
    (if key.materialized then ",materialized=true" else "") ++
    (key.jsonDataType.elim "" fun jsonDataType => ",jsondatatype=" ++ jsonDataType) ++
    if key.indexes.isEmpty then ""
    else ",indexes=[" ++ "; ".intercalate (key.indexes.map fun index =>
      "\x7btype=" ++ index.type ++ ", columnExpr=" ++ index.columnExpression ++ ", indexExpr=" ++
        index.indexExpression ++ "\x7d") ++ "]"

/-! ## The map -/

/-- The context of an entry that meets another key of its name, and what is reported. -/
def TelemetryFieldKey.dropContext (existingKey key : TelemetryFieldKey M) :
    TelemetryFieldKey M × List String :=
  if existingKey.fieldContext ≠ key.fieldContext ∧ existingKey.fieldContext ≠ .unspecified then
    ({ existingKey with fieldContext := .unspecified },
      ["Removed field context from " ++ existingKey.string ++ " for duplicate key " ++ key.string])
  else (existingKey, [])

/-- The same for its data type. -/
def TelemetryFieldKey.dropDataType (existingKey key : TelemetryFieldKey M) :
    TelemetryFieldKey M × List String :=
  if existingKey.fieldDataType ≠ key.fieldDataType ∧ existingKey.fieldDataType ≠ .unspecified then
    ({ existingKey with fieldDataType := .unspecified },
      ["Removed field data type from " ++ existingKey.string ++ " for duplicate key " ++
        key.string])
  else (existingKey, [])

/-- `globalUniqueKeysMap`, in the order of its first writes. -/
abbrev KeysMap (M : Type) := List (String × TelemetryFieldKey M)

def KeysMap.set (keysMap : KeysMap M) (name : String) (key : TelemetryFieldKey M) : KeysMap M :=
  upsertWith name key (fun _ => key) keysMap

/-- `deduplicateKeys`, on the map and the actions recorded so far. -/
def deduplicateKeys (state : KeysMap M × List String) (key : TelemetryFieldKey M) :
    KeysMap M × List String :=
  match state.1.lookup key.name with
  | none => (state.1.set key.name key, state.2)
  | some existingKey =>
    let generic := existingKey.dropContext key
    let moreGeneric := generic.1.dropDataType key
    (state.1.set key.name moreGeneric.1, state.2 ++ generic.2 ++ moreGeneric.2)

/-! ## The lists -/

/-- The loop that rebuilds a list: the first item of each name is made anew, and the others are
reported; `seen` holds the names so far. -/
def rebuild {A : Type} (name : A → String) (make : A → A) (skipped : A → String) :
    List String → List A → List A × List String
  | _, [] => ([], [])
  | seen, item :: items =>
    if name item ∈ seen then
      let rest := rebuild name make skipped seen items
      (rest.1, skipped item :: rest.2)
    else
      let rest := rebuild name make skipped (name item :: seen) items
      (make item :: rest.1, rest.2)

/-- The keys of the three lists, in the order in which the map sees them. -/
def QueryBuilderQuery.usages (query : QueryBuilderQuery M) : List (TelemetryFieldKey M) :=
  query.selectFields ++ query.groupBy ++ query.order.map OrderBy.key

/-- `AdjustDuplicateKeys`: the query it leaves, and the actions it returns. A name that the map
does not have would give the zero key. -/
def adjustDuplicateKeys (zero : TelemetryFieldKey M) (query : QueryBuilderQuery M) :
    QueryBuilderQuery M × List String :=
  let deduplicated := query.usages.foldl deduplicateKeys ([], [])
  let unique (name : String) : TelemetryFieldKey M := (deduplicated.1.lookup name).getD zero
  let newSelectFields := rebuild (fun key => key.name) (fun key => unique key.name)
    (fun key => "Skipped duplicate SelectField key " ++ key.string) [] query.selectFields
  let newGroupBy := rebuild (fun key => key.name) (fun key => unique key.name)
    (fun key => "Skipped duplicate GroupBy key " ++ key.string) [] query.groupBy
  let newOrderBy := rebuild (fun order => order.key.name)
    (fun order => ⟨unique order.key.name, order.direction⟩)
    (fun order => "Skipped duplicate OrderBy key " ++ order.key.string) [] query.order
  (⟨newSelectFields.1, newGroupBy.1, newOrderBy.1⟩,
    deduplicated.2 ++ newSelectFields.2 ++ newGroupBy.2 ++ newOrderBy.2)

/-! ## The entry of a name -/

/-- An entry after one more key of its name. -/
def TelemetryFieldKey.unify (existingKey key : TelemetryFieldKey M) : TelemetryFieldKey M :=
  ((existingKey.dropContext key).1.dropDataType key).1

/-- A value that meets another one: it stays where they agree. -/
def agreed {V : Type} [DecidableEq V] (unspecified x y : V) : V :=
  if x ≠ y ∧ x ≠ unspecified then unspecified else x

@[simp] theorem unify_name (existingKey key : TelemetryFieldKey M) :
    (existingKey.unify key).name = existingKey.name := by
  unfold TelemetryFieldKey.unify TelemetryFieldKey.dropDataType TelemetryFieldKey.dropContext
  split <;> split <;> rfl

@[simp] theorem unify_fieldContext (existingKey key : TelemetryFieldKey M) :
    (existingKey.unify key).fieldContext =
      agreed .unspecified existingKey.fieldContext key.fieldContext := by
  unfold TelemetryFieldKey.unify TelemetryFieldKey.dropDataType TelemetryFieldKey.dropContext agreed
  split <;> split <;> simp_all

@[simp] theorem unify_fieldDataType (existingKey key : TelemetryFieldKey M) :
    (existingKey.unify key).fieldDataType =
      agreed .unspecified existingKey.fieldDataType key.fieldDataType := by
  unfold TelemetryFieldKey.unify TelemetryFieldKey.dropDataType TelemetryFieldKey.dropContext agreed
  split <;> split <;> simp_all

/-- Only values that all agree leave a value. -/
theorem foldl_agreed {V : Type} [DecidableEq V] (unspecified : V) (values : List V) :
    ∀ x, values.foldl (agreed unspecified) x =
      if ∀ y ∈ values, y = x then x else unspecified := by
  induction values with
  | nil => exact fun x => by simp
  | cons y values ih =>
    intro x
    rw [List.foldl_cons, ih, agreed]
    by_cases hxy : y = x
    · subst hxy
      simp
    · by_cases hx : x = unspecified
      · simp [hx]
      · -- the entry is unspecified from here on
        have hne : x ≠ y := fun heq => hxy heq.symm
        simp [hne, hx, hxy]

theorem foldl_unify_name (keys : List (TelemetryFieldKey M)) :
    ∀ key : TelemetryFieldKey M, (keys.foldl TelemetryFieldKey.unify key).name = key.name := by
  induction keys with
  | nil => exact fun key => rfl
  | cons key' keys ih => exact fun key => (ih _).trans (unify_name key key')

theorem foldl_unify_fieldContext (keys : List (TelemetryFieldKey M)) :
    ∀ key : TelemetryFieldKey M, (keys.foldl TelemetryFieldKey.unify key).fieldContext =
      (keys.map fun key => key.fieldContext).foldl (agreed .unspecified) key.fieldContext := by
  induction keys with
  | nil => exact fun key => rfl
  | cons key' keys ih => exact fun key => (ih _).trans (by simp)

theorem foldl_unify_fieldDataType (keys : List (TelemetryFieldKey M)) :
    ∀ key : TelemetryFieldKey M, (keys.foldl TelemetryFieldKey.unify key).fieldDataType =
      (keys.map fun key => key.fieldDataType).foldl (agreed .unspecified) key.fieldDataType := by
  induction keys with
  | nil => exact fun key => rfl
  | cons key' keys ih => exact fun key => (ih _).trans (by simp)

/-- One key changes the entry of its own name. -/
theorem lookup_deduplicateKeys (state : KeysMap M × List String) (key : TelemetryFieldKey M)
    (name : String) :
    (deduplicateKeys state key).1.lookup name =
      if name = key.name then some ((state.1.lookup name).elim key fun e => e.unify key)
      else state.1.lookup name := by
  by_cases hname : name = key.name
  · subst hname
    cases hlookup : state.1.lookup key.name with
    | none => simp [deduplicateKeys, KeysMap.set, lookup_upsertWith, hlookup]
    | some e =>
      simp [deduplicateKeys, KeysMap.set, lookup_upsertWith, hlookup, TelemetryFieldKey.unify]
  · cases hlookup : state.1.lookup key.name <;>
      simp [deduplicateKeys, KeysMap.set, lookup_upsertWith, hlookup, hname]

/-- The entry of a name comes from the keys of that name alone. -/
theorem lookup_usages (keys : List (TelemetryFieldKey M)) (name : String) :
    ∀ state : KeysMap M × List String,
      (keys.foldl deduplicateKeys state).1.lookup name =
        foldItems id TelemetryFieldKey.unify (state.1.lookup name)
          (keys.filter fun key => key.name = name) := by
  induction keys with
  | nil => exact fun state => by cases h : state.1.lookup name <;> simp [foldItems, h]
  | cons key keys ih =>
    intro state
    rw [List.foldl_cons, ih, lookup_deduplicateKeys]
    by_cases hname : key.name = name
    · subst hname
      cases h : state.1.lookup key.name <;> simp [foldItems]
    · have hname' : ¬ name = key.name := fun heq => hname heq.symm
      simp [hname, hname']

/-! ## Rebuilt lists -/

/-- The first item of each name. -/
def firsts {A : Type} (name : A → String) : List String → List A → List A
  | _, [] => []
  | seen, item :: items =>
    if name item ∈ seen then firsts name seen items
    else item :: firsts name (name item :: seen) items

section

variable {A : Type} {name : A → String} {make : A → A} {skipped : A → String}

attribute [local simp] rebuild firsts

theorem rebuild_fst (items : List A) :
    ∀ seen, (rebuild name make skipped seen items).1 = (firsts name seen items).map make := by
  induction items with
  | nil => exact fun seen => rfl
  | cons item items ih =>
    intro seen
    rw [rebuild, firsts]
    split
    · exact ih seen
    · exact congrArg _ (ih _)

/-- A list without repeated names, whose items are made as they are, stays as it is. -/
theorem rebuild_of_nodup (items : List A) :
    ∀ seen, (items.map name).Nodup → (∀ item ∈ items, name item ∉ seen) →
      (∀ item ∈ items, make item = item) →
      rebuild name make skipped seen items = (items, []) := by
  induction items with
  | nil => exact fun seen _ _ _ => rfl
  | cons item items ih =>
    intro seen hnodup hseen hmake
    rw [List.map_cons, List.nodup_cons] at hnodup
    have hrest := ih (name item :: seen) hnodup.2 (fun item' hitem' hmem => by
      obtain heq | hmem := List.mem_cons.1 hmem
      · exact hnodup.1 (heq ▸ List.mem_map_of_mem hitem')
      · exact hseen item' (List.mem_cons_of_mem _ hitem') hmem)
      fun item' hitem' => hmake item' (List.mem_cons_of_mem _ hitem')
    rw [rebuild, if_neg (hseen item List.mem_cons_self), hrest, hmake item List.mem_cons_self]

theorem find?_of_mem_firsts (items : List A) :
    ∀ {seen : List String} {item : A}, item ∈ firsts name seen items →
      name item ∉ seen ∧ items.find? (fun item' => name item' = name item) = some item := by
  induction items with
  | nil => exact fun h => absurd h List.not_mem_nil
  | cons first items ih =>
    intro seen item h
    rw [firsts] at h
    split at h
    · have hrest := ih h
      have hne : name first ≠ name item := fun heq => hrest.1 (heq ▸ by assumption)
      exact ⟨hrest.1, by simpa [hne] using hrest.2⟩
    · obtain rfl | h := List.mem_cons.1 h
      · exact ⟨by assumption, by simp⟩
      · obtain ⟨hseen, hfind⟩ := ih h
        have hne : name first ≠ name item := fun heq => hseen (heq ▸ List.mem_cons_self)
        exact ⟨fun hmem => hseen (List.mem_cons_of_mem _ hmem), by simpa [hne] using hfind⟩

theorem exists_mem_firsts (items : List A) :
    ∀ {seen : List String} {n : String}, n ∈ items.map name → n ∉ seen →
      ∃ item ∈ firsts name seen items, name item = n := by
  induction items with
  | nil => exact fun h => absurd h List.not_mem_nil
  | cons first items ih =>
    intro seen n h hseen
    rw [firsts]
    by_cases hfirst : name first = n
    · subst hfirst
      exact ⟨first, by simp [hseen], rfl⟩
    · have hrest : n ∈ items.map name := by
        obtain heq | hmem := List.mem_cons.1 h
        · exact absurd heq.symm hfirst
        · exact hmem
      split
      · exact ih hrest hseen
      · obtain ⟨item, hitem, hname⟩ := @ih (name first :: seen) n hrest
          (fun hmem => (List.mem_cons.1 hmem).elim (fun heq => hfirst heq.symm) hseen)
        exact ⟨item, List.mem_cons_of_mem _ hitem, hname⟩

/-- The first items of the names come in the order of the names. -/
theorem firsts_ordered (items : List A) :
    ∀ seen, ((firsts name seen items).map name).Pairwise
      fun a b => (items.map name).idxOf a < (items.map name).idxOf b := by
  induction items with
  | nil => exact fun seen => List.Pairwise.nil
  | cons first items ih =>
    intro seen
    have hshift : ∀ {seen' : List String}, name first ∈ seen' →
        ((firsts name seen' items).map name).Pairwise fun a b =>
          ((first :: items).map name).idxOf a < ((first :: items).map name).idxOf b := by
      intro seen' hfirst
      refine (ih seen').imp_of_mem fun {a b} ha hb hab => ?_
      have hne : ∀ c ∈ (firsts name seen' items).map name, name first ≠ c := by
        intro c hc heq
        obtain ⟨item, hitem, rfl⟩ := List.mem_map.1 hc
        exact (find?_of_mem_firsts items hitem).1 (heq ▸ hfirst)
      rw [List.map_cons, List.idxOf_cons_ne _ (hne a ha), List.idxOf_cons_ne _ (hne b hb)]
      exact Nat.succ_lt_succ hab
    rw [firsts]
    split
    · exact hshift (by assumption)
    · rw [List.map_cons (f := name) (a := first) (l := firsts name (name first :: seen) items),
        List.pairwise_cons]
      refine ⟨fun b hb => ?_, hshift List.mem_cons_self⟩
      obtain ⟨item, hitem, rfl⟩ := List.mem_map.1 hb
      have hne : name first ≠ name item := fun heq =>
        (find?_of_mem_firsts items hitem).1 (heq ▸ List.mem_cons_self)
      rw [List.map_cons, List.idxOf_cons_self, List.idxOf_cons_ne _ hne]
      exact Nat.succ_pos _

end

/-! ## Unified queries -/

/-- The names of a list, each once, in the order in which they occur first. -/
structure KeepsNames (names kept : List String) : Prop where
  mem_iff : ∀ name, name ∈ kept ↔ name ∈ names
  ordered : kept.Pairwise fun a b => names.idxOf a < names.idxOf b

/-- The common value of a list where there is one, and `unspecified` elsewhere. -/
structure CommonValue {V : Type} (unspecified : V) (values : List V) (value : V) : Prop where
  agree : ∀ c, (∀ v ∈ values, v = c) → value = c
  differ : (¬ ∃ c, ∀ v ∈ values, v = c) → value = unspecified

/-- The keys of one name. -/
def QueryBuilderQuery.usagesOf (query : QueryBuilderQuery M) (name : String) :
    List (TelemetryFieldKey M) :=
  query.usages.filter fun key => key.name = name

/-- The second query is the first one with its duplicate keys unified. -/
structure Unified (query query' : QueryBuilderQuery M) : Prop where
  selectNames : KeepsNames (query.selectFields.map fun key => key.name)
    (query'.selectFields.map fun key => key.name)
  groupNames : KeepsNames (query.groupBy.map fun key => key.name)
    (query'.groupBy.map fun key => key.name)
  orderNames : KeepsNames (query.order.map fun order => order.key.name)
    (query'.order.map fun order => order.key.name)
  same : ∀ key ∈ query'.usages, ∀ key' ∈ query'.usages, key.name = key'.name →
    key.fieldContext = key'.fieldContext ∧ key.fieldDataType = key'.fieldDataType
  context : ∀ key ∈ query'.usages, CommonValue .unspecified
    ((query.usagesOf key.name).map fun key => key.fieldContext) key.fieldContext
  dataType : ∀ key ∈ query'.usages, CommonValue .unspecified
    ((query.usagesOf key.name).map fun key => key.fieldDataType) key.fieldDataType
  direction : ∀ order ∈ query'.order, ∃ first,
    query.order.find? (fun order' => order'.key.name = order.key.name) = some first ∧
      order.direction = first.direction

/-- One key for each name, and no name twice in a list. -/
structure Settled (query : QueryBuilderQuery M) : Prop where
  selectNodup : (query.selectFields.map fun key => key.name).Nodup
  groupNodup : (query.groupBy.map fun key => key.name).Nodup
  orderNodup : (query.order.map fun order => order.key.name).Nodup
  same : ∀ key ∈ query.usages, ∀ key' ∈ query.usages, key.name = key'.name → key = key'

theorem KeepsNames.nodup {names kept : List String} (h : KeepsNames names kept) : kept.Nodup :=
  h.ordered.imp fun hlt heq => absurd (heq ▸ hlt) (lt_irrefl _)

theorem foldl_agreed_common {V : Type} [DecidableEq V] (unspecified x : V) (values : List V) :
    CommonValue unspecified (x :: values) (values.foldl (agreed unspecified) x) := by
  rw [foldl_agreed]
  constructor
  · intro c hc
    have hx : x = c := hc x List.mem_cons_self
    rw [if_pos fun y hy => (hc y (List.mem_cons_of_mem _ hy)).trans hx.symm]
    exact hx
  · intro hdiffer
    refine if_neg fun hall => hdiffer ⟨x, fun v hv => ?_⟩
    obtain rfl | hv := List.mem_cons.1 hv
    · rfl
    · exact hall v hv

/-- The key that the map holds for a name of the query. -/
theorem exists_entry {query : QueryBuilderQuery M} {key : TelemetryFieldKey M}
    (h : key ∈ query.usages) :
    ∃ e, (query.usages.foldl deduplicateKeys ([], [])).1.lookup key.name = some e ∧
      e.name = key.name ∧
      CommonValue .unspecified ((query.usagesOf key.name).map fun key => key.fieldContext)
        e.fieldContext ∧
      CommonValue .unspecified ((query.usagesOf key.name).map fun key => key.fieldDataType)
        e.fieldDataType := by
  rw [lookup_usages]
  have hmem : key ∈ query.usagesOf key.name := List.mem_filter.2 ⟨h, by simp⟩
  change ∃ e, foldItems id TelemetryFieldKey.unify none (query.usagesOf key.name) = some e ∧ _
  cases husages : query.usagesOf key.name with
  | nil => exact absurd (husages ▸ hmem) List.not_mem_nil
  | cons first rest =>
    have hfirst : first.name = key.name := by
      have hin : first ∈ query.usagesOf key.name := husages ▸ List.mem_cons_self
      simpa using (List.mem_filter.1 hin).2
    refine ⟨rest.foldl TelemetryFieldKey.unify first, foldItems_none_cons _ _ _ _,
      (foldl_unify_name rest first).trans hfirst, ?_, ?_⟩
    · rw [foldl_unify_fieldContext]
      exact foldl_agreed_common _ _ _
    · rw [foldl_unify_fieldDataType]
      exact foldl_agreed_common _ _ _

/-- A rebuilt list keeps the names, if making an item keeps its name. -/
theorem keepsNames_rebuild {A : Type} {name : A → String} {make : A → A} {skipped : A → String}
    {items : List A} (hmake : ∀ item ∈ items, name (make item) = name item) :
    KeepsNames (items.map name) ((rebuild name make skipped [] items).1.map name) := by
  have hfirsts : ∀ item ∈ firsts name [] items, item ∈ items := fun item hitem =>
    List.mem_of_find?_eq_some (find?_of_mem_firsts items hitem).2
  have hnames : (rebuild name make skipped [] items).1.map name =
      (firsts name [] items).map name := by
    rw [rebuild_fst, List.map_map]
    exact List.map_congr_left fun item hitem => hmake item (hfirsts item hitem)
  rw [hnames]
  refine ⟨fun n => ⟨fun hn => ?_, fun hn => ?_⟩, firsts_ordered items []⟩
  · obtain ⟨item, hitem, rfl⟩ := List.mem_map.1 hn
    exact List.mem_map_of_mem (hfirsts item hitem)
  · obtain ⟨item, hitem, rfl⟩ := exists_mem_firsts items hn List.not_mem_nil
    exact List.mem_map_of_mem hitem

/-- The items of a rebuilt list are made from items of the list. -/
theorem exists_of_mem_rebuild {A : Type} {name : A → String} {make : A → A} {skipped : A → String}
    {items : List A} {item' : A} (h : item' ∈ (rebuild name make skipped [] items).1) :
    ∃ item ∈ items, make item = item' ∧
      items.find? (fun other => name other = name item) = some item := by
  rw [rebuild_fst] at h
  obtain ⟨item, hitem, rfl⟩ := List.mem_map.1 h
  have hfind := (find?_of_mem_firsts items hitem).2
  exact ⟨item, List.mem_of_find?_eq_some hfind, rfl, hfind⟩

section

variable (zero : TelemetryFieldKey M) (query : QueryBuilderQuery M)

theorem mem_usages_iff {key : TelemetryFieldKey M} :
    key ∈ query.usages ↔ key ∈ query.selectFields ∨ key ∈ query.groupBy ∨
      ∃ order ∈ query.order, order.key = key := by
  simp [QueryBuilderQuery.usages]

/-- `globalUniqueKeysMap[name]`. -/
def uniqueKey (name : String) : TelemetryFieldKey M :=
  ((query.usages.foldl deduplicateKeys ([], [])).1.lookup name).getD zero

theorem uniqueKey_name {key : TelemetryFieldKey M} (h : key ∈ query.usages) :
    (uniqueKey zero query key.name).name = key.name := by
  obtain ⟨e, hlookup, hname, -⟩ := exists_entry h
  rw [uniqueKey, hlookup, Option.getD_some, hname]

/-- Every key that is left is the one the map holds for the name of a key of the query. -/
theorem exists_of_mem_adjusted {key : TelemetryFieldKey M}
    (h : key ∈ (adjustDuplicateKeys zero query).1.usages) :
    ∃ original ∈ query.usages, key = uniqueKey zero query original.name := by
  obtain hselect | hgroup | ⟨order, horder, rfl⟩ := (mem_usages_iff _).1 h
  · obtain ⟨item, hitem, rfl, -⟩ := exists_of_mem_rebuild hselect
    exact ⟨item, (mem_usages_iff query).2 (Or.inl hitem), rfl⟩
  · obtain ⟨item, hitem, rfl, -⟩ := exists_of_mem_rebuild hgroup
    exact ⟨item, (mem_usages_iff query).2 (Or.inr (Or.inl hitem)), rfl⟩
  · obtain ⟨item, hitem, rfl, -⟩ := exists_of_mem_rebuild horder
    exact ⟨item.key, (mem_usages_iff query).2 (Or.inr (Or.inr ⟨item, hitem, rfl⟩)), rfl⟩

theorem unified_adjustDuplicateKeys : Unified query (adjustDuplicateKeys zero query).1 := by
  refine ⟨keepsNames_rebuild fun key hkey => ?_, keepsNames_rebuild fun key hkey => ?_,
    keepsNames_rebuild fun order horder => ?_, fun key hkey key' hkey' hname => ?_,
    fun key hkey => ?_, fun key hkey => ?_, fun order horder => ?_⟩
  · exact uniqueKey_name zero query ((mem_usages_iff query).2 (Or.inl hkey))
  · exact uniqueKey_name zero query ((mem_usages_iff query).2 (Or.inr (Or.inl hkey)))
  · exact uniqueKey_name zero query
      ((mem_usages_iff query).2 (Or.inr (Or.inr ⟨order, horder, rfl⟩)))
  · obtain ⟨original, horiginal, rfl⟩ := exists_of_mem_adjusted zero query hkey
    obtain ⟨original', horiginal', rfl⟩ := exists_of_mem_adjusted zero query hkey'
    rw [uniqueKey_name zero query horiginal, uniqueKey_name zero query horiginal'] at hname
    rw [hname]
    exact ⟨rfl, rfl⟩
  · obtain ⟨original, horiginal, rfl⟩ := exists_of_mem_adjusted zero query hkey
    obtain ⟨e, hlookup, hname, hcontext, -⟩ := exists_entry horiginal
    rw [uniqueKey, hlookup, Option.getD_some, hname]
    exact hcontext
  · obtain ⟨original, horiginal, rfl⟩ := exists_of_mem_adjusted zero query hkey
    obtain ⟨e, hlookup, hname, -, hdataType⟩ := exists_entry horiginal
    rw [uniqueKey, hlookup, Option.getD_some, hname]
    exact hdataType
  · obtain ⟨first, hfirst, rfl, hfind⟩ := exists_of_mem_rebuild horder
    have hname := uniqueKey_name zero query
      ((mem_usages_iff query).2 (Or.inr (Or.inr ⟨first, hfirst, rfl⟩)))
    refine ⟨first, ?_, rfl⟩
    change query.order.find? (fun order' =>
      order'.key.name = (uniqueKey zero query first.key.name).name) = some first
    rw [hname]
    exact hfind

theorem settled_adjustDuplicateKeys : Settled (adjustDuplicateKeys zero query).1 := by
  have hunified := unified_adjustDuplicateKeys zero query
  refine ⟨hunified.selectNames.nodup, hunified.groupNames.nodup, hunified.orderNames.nodup,
    fun key hkey key' hkey' hname => ?_⟩
  obtain ⟨original, horiginal, rfl⟩ := exists_of_mem_adjusted zero query hkey
  obtain ⟨original', horiginal', rfl⟩ := exists_of_mem_adjusted zero query hkey'
  rw [uniqueKey_name zero query horiginal, uniqueKey_name zero query horiginal'] at hname
  rw [hname]

end

/-! ## Settled queries -/

theorem deduplicateKeys_self (state : KeysMap M × List String) (key : TelemetryFieldKey M)
    (h : ∀ e, state.1.lookup key.name = some e → e = key) :
    (deduplicateKeys state key).2 = state.2 := by
  rw [deduplicateKeys]
  cases hlookup : state.1.lookup key.name with
  | none => rfl
  | some e =>
    obtain rfl := h e hlookup
    simp [TelemetryFieldKey.dropContext, TelemetryFieldKey.dropDataType]

theorem unify_self (key : TelemetryFieldKey M) : key.unify key = key := by
  simp [TelemetryFieldKey.unify, TelemetryFieldKey.dropContext, TelemetryFieldKey.dropDataType]

/-- Where every name has one key, the map holds keys of the query, and nothing is reported. -/
theorem foldl_deduplicateKeys_same {all : List (TelemetryFieldKey M)}
    (hsame : ∀ key ∈ all, ∀ key' ∈ all, key.name = key'.name → key = key')
    (keys : List (TelemetryFieldKey M)) :
    ∀ state : KeysMap M × List String, (∀ key ∈ keys, key ∈ all) →
      (∀ name e, state.1.lookup name = some e → e ∈ all ∧ e.name = name) →
      (∀ name e, (keys.foldl deduplicateKeys state).1.lookup name = some e →
        e ∈ all ∧ e.name = name) ∧ (keys.foldl deduplicateKeys state).2 = state.2 := by
  induction keys with
  | nil => exact fun state _ hstate => ⟨hstate, rfl⟩
  | cons key keys ih =>
    intro state hkeys hstate
    have hkey := hkeys key List.mem_cons_self
    have hself : ∀ e, state.1.lookup key.name = some e → e = key := fun e he =>
      hsame e (hstate _ e he).1 key hkey (hstate _ e he).2
    have hstep : ∀ name e, (deduplicateKeys state key).1.lookup name = some e →
        e ∈ all ∧ e.name = name := by
      intro name e he
      rw [lookup_deduplicateKeys] at he
      split at he
      · next hname =>
        have hentry : (state.1.lookup name).elim key (fun e => e.unify key) = key := by
          cases hlookup : state.1.lookup name with
          | none => rfl
          | some old => rw [Option.elim_some, hself old (hname ▸ hlookup), unify_self]
        rw [hentry] at he
        obtain rfl := Option.some.inj he
        exact ⟨hkey, hname.symm⟩
      · exact hstate name e he
    obtain ⟨hlookup, hactions⟩ := ih (deduplicateKeys state key)
      (fun key' hkey' => hkeys key' (List.mem_cons_of_mem _ hkey')) hstep
    exact ⟨hlookup, hactions.trans (deduplicateKeys_self state key hself)⟩

/-- A settled query is left as it is, without a report. -/
theorem adjustDuplicateKeys_of_settled (zero : TelemetryFieldKey M) {query : QueryBuilderQuery M}
    (h : Settled query) : adjustDuplicateKeys zero query = (query, []) := by
  obtain ⟨hlookup, hactions⟩ := foldl_deduplicateKeys_same h.same query.usages ([], [])
    (fun _ hkey => hkey) (fun name e he => by simp at he)
  have hunique : ∀ key ∈ query.usages, uniqueKey zero query key.name = key := by
    intro key hkey
    obtain ⟨e, he, hname, -⟩ := exists_entry hkey
    rw [uniqueKey, he, Option.getD_some]
    exact h.same e (hlookup _ e he).1 key hkey hname
  have hselect := @rebuild_of_nodup _ _ (fun key => uniqueKey zero query key.name)
    (fun key => "Skipped duplicate SelectField key " ++ key.string)
    query.selectFields [] h.selectNodup (fun _ _ => List.not_mem_nil)
    fun key hkey => hunique key ((mem_usages_iff query).2 (Or.inl hkey))
  have hgroup := @rebuild_of_nodup _ _ (fun key => uniqueKey zero query key.name)
    (fun key => "Skipped duplicate GroupBy key " ++ key.string)
    query.groupBy [] h.groupNodup (fun _ _ => List.not_mem_nil)
    fun key hkey => hunique key ((mem_usages_iff query).2 (Or.inr (Or.inl hkey)))
  have horder := @rebuild_of_nodup _ _
    (fun order => OrderBy.mk (uniqueKey zero query order.key.name) order.direction)
    (fun order => "Skipped duplicate OrderBy key " ++ order.key.string)
    query.order [] h.orderNodup (fun _ _ => List.not_mem_nil) (fun order horder => by
      rw [hunique order.key ((mem_usages_iff query).2 (Or.inr (Or.inr ⟨order, horder, rfl⟩)))])
  simp only [uniqueKey] at hselect hgroup horder
  simp only [adjustDuplicateKeys, hselect, hgroup, horder, hactions, List.append_nil]

/-- `AdjustDuplicateKeys` unifies the duplicate keys of every query, and a second call changes
nothing. -/
theorem adjustDuplicateKeys_unifies (zero : TelemetryFieldKey M) (query : QueryBuilderQuery M) :
    Unified query (adjustDuplicateKeys zero query).1 ∧
      adjustDuplicateKeys zero (adjustDuplicateKeys zero query).1 =
        ((adjustDuplicateKeys zero query).1, []) :=
  ⟨unified_adjustDuplicateKeys zero query,
    adjustDuplicateKeys_of_settled zero (settled_adjustDuplicateKeys zero query)⟩

end

end Signoz.QueryBuilder
