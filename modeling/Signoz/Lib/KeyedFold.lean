import Mathlib.Data.Fintype.EquivFin

/-!
# Accumulating a list of keyed items into a map

A program that walks over items `(k, a)` and keeps one entry per key, creating it on the first
item and merging later items into it, computes `accumulate`. The map is an association list in
insertion order. The view one proof needs is per key: the entry of `k` is the left fold of the
items filed under `k`, in their order (`lookup_accumulate`), and keys stay distinct
(`nodup_keys_accumulate`).
-/

namespace Lib.KeyedFold

universe u v w

variable {K : Type u} {V : Type v} {A : Type w} [DecidableEq K]

/-- Replace the entry of `k` by `upd` of itself, or append the entry `new`. -/
def upsertWith (k : K) (new : V) (upd : V → V) : List (K × V) → List (K × V)
  | [] => [(k, new)]
  | (k', v) :: rest =>
    if k' = k then (k', upd v) :: rest else (k', v) :: upsertWith k new upd rest

/-- Insert the items one by one: `init` makes a new entry, `merge` extends an existing one. -/
def accumulate (init : A → V) (merge : V → A → V) (m : List (K × V)) (l : List (K × A)) :
    List (K × V) :=
  l.foldl (fun m p => upsertWith p.1 (init p.2) (fun v => merge v p.2) m) m

/-- The items filed under `k`, in order. -/
def itemsOf (k : K) (l : List (K × A)) : List A := (l.filter fun p => p.1 = k).map Prod.snd

/-- The entry that a list of items under one key leaves behind. -/
def foldItems (init : A → V) (merge : V → A → V) : Option V → List A → Option V
  | acc, [] => acc
  | none, a :: as => foldItems init merge (some (init a)) as
  | some v, a :: as => foldItems init merge (some (merge v a)) as

attribute [local simp] upsertWith

theorem mem_itemsOf {k : K} {l : List (K × A)} {a : A} : a ∈ itemsOf k l ↔ (k, a) ∈ l := by
  constructor
  · intro h
    obtain ⟨⟨k', a'⟩, hp, rfl⟩ := List.mem_map.1 h
    obtain ⟨hl, hk⟩ := List.mem_filter.1 hp
    have hk' : k' = k := by simpa using hk
    exact hk' ▸ hl
  · exact fun h => List.mem_map.2 ⟨(k, a), List.mem_filter.2 ⟨h, by simp⟩, rfl⟩

@[simp] theorem itemsOf_nil (k : K) : itemsOf k ([] : List (K × A)) = [] := rfl

theorem itemsOf_cons (k : K) (p : K × A) (l : List (K × A)) :
    itemsOf k (p :: l) = if p.1 = k then p.2 :: itemsOf k l else itemsOf k l := by
  by_cases h : p.1 = k <;> simp [itemsOf, h]

theorem itemsOf_append (k : K) (l l' : List (K × A)) :
    itemsOf k (l ++ l') = itemsOf k l ++ itemsOf k l' := by simp [itemsOf]

theorem itemsOf_map {B : Type*} (key : B → K) (value : B → A) (k : K) (l : List B) :
    itemsOf k (l.map fun b => (key b, value b)) = (l.filter fun b => key b = k).map value := by
  simp [itemsOf, List.filter_map, Function.comp_def]

theorem lookup_upsertWith (k k' : K) (new : V) (upd : V → V) (m : List (K × V)) :
    (upsertWith k new upd m).lookup k' =
      if k' = k then some ((m.lookup k).elim new upd) else m.lookup k' := by
  induction m with
  | nil => by_cases h : k' = k <;> simp [upsertWith, List.lookup_cons, h, beq_eq_false_iff_ne.2]
  | cons p rest ih =>
    obtain ⟨j, v⟩ := p
    by_cases hj : j = k
    · subst hj
      by_cases h : k' = j <;> simp [upsertWith, List.lookup_cons, h, beq_eq_false_iff_ne.2]
    · have hkj : (k == j) = false := beq_eq_false_iff_ne.2 (Ne.symm hj)
      by_cases h : k' = j
      · subst h
        simp [upsertWith, hj]
      · have h' : (k' == j) = false := beq_eq_false_iff_ne.2 h
        simp [upsertWith, List.lookup_cons, hj, hkj, h', ih]

/-- The entry of `k` depends only on the items filed under `k`. -/
theorem lookup_accumulate (init : A → V) (merge : V → A → V) (k : K) (l : List (K × A)) :
    ∀ m : List (K × V),
      (accumulate init merge m l).lookup k = foldItems init merge (m.lookup k) (itemsOf k l) := by
  induction l with
  | nil => exact fun m => by cases hm : m.lookup k <;> simp [accumulate, foldItems, hm]
  | cons p l ih =>
    intro m
    have hstep : accumulate init merge m (p :: l) =
        accumulate init merge (upsertWith p.1 (init p.2) (fun v => merge v p.2) m) l := rfl
    rw [hstep, ih, lookup_upsertWith, itemsOf_cons]
    by_cases h : p.1 = k
    · subst h
      cases hm : m.lookup p.1 <;> simp [foldItems]
    · simp [h, Ne.symm h]

theorem mem_keys_upsertWith (k : K) (new : V) (upd : V → V) (m : List (K × V)) (k' : K) :
    k' ∈ (upsertWith k new upd m).map Prod.fst ↔ k' = k ∨ k' ∈ m.map Prod.fst := by
  induction m with
  | nil => simp [upsertWith]
  | cons p rest ih =>
    obtain ⟨j, v⟩ := p
    by_cases hj : j = k
    · subst hj
      rw [upsertWith, if_pos rfl]
      simp
    · rw [upsertWith, if_neg hj, List.map_cons, List.mem_cons, ih, List.map_cons, List.mem_cons]
      exact or_left_comm

variable {m : List (K × V)}

theorem nodup_keys_upsertWith (k : K) (new : V) (upd : V → V) (hm : (m.map Prod.fst).Nodup) :
   ((upsertWith k new upd m).map Prod.fst).Nodup := by
  induction m with
  | nil => simp [upsertWith]
  | cons p rest ih =>
    obtain ⟨j, v⟩ := p
    rw [List.map_cons, List.nodup_cons] at hm
    by_cases hj : j = k
    · rw [upsertWith, if_pos hj, List.map_cons, List.nodup_cons]
      exact hm
    · rw [upsertWith, if_neg hj, List.map_cons, List.nodup_cons]
      refine ⟨fun hmem => ?_, ih hm.2⟩
      rcases (mem_keys_upsertWith k new upd rest j).1 hmem with h | h
      · exact hj h
      · exact hm.1 h

theorem nodup_keys_accumulate (init : A → V) (merge : V → A → V) (l : List (K × A)) :
    ∀ {m : List (K × V)}, (m.map Prod.fst).Nodup →
      ((accumulate init merge m l).map Prod.fst).Nodup := by
  induction l with
  | nil => exact fun hm => hm
  | cons p l ih => exact fun hm => ih (nodup_keys_upsertWith p.1 _ _ hm)

/-- The keys of the map are the old ones and those of the items. -/
theorem mem_keys_accumulate (init : A → V) (merge : V → A → V) (l : List (K × A)) (k : K) :
    ∀ m : List (K × V), k ∈ (accumulate init merge m l).map Prod.fst ↔
      k ∈ m.map Prod.fst ∨ k ∈ l.map Prod.fst := by
  induction l with
  | nil => simp [accumulate]
  | cons p l ih =>
    intro m
    have hstep : accumulate init merge m (p :: l) =
        accumulate init merge (upsertWith p.1 (init p.2) (fun v => merge v p.2) m) l := rfl
    rw [hstep, ih, mem_keys_upsertWith, List.map_cons, List.mem_cons]
    exact or_assoc.trans or_left_comm

theorem lookup_eq_none_of_notMem {k : K} (h : k ∉ m.map Prod.fst) :
    m.lookup k = none := by
  rw [List.lookup_eq_none_iff]
  intro p hp
  exact bne_iff_ne.2 fun heq => h (List.mem_map.2 ⟨p, hp, heq.symm⟩)

/-- With distinct keys, being an entry and being looked up are the same. -/
theorem mem_iff_lookup (hm : (m.map Prod.fst).Nodup) {k : K} {v : V} :
    (k, v) ∈ m ↔ m.lookup k = some v := by
  induction m with
  | nil => simp
  | cons p rest ih =>
    obtain ⟨j, w⟩ := p
    rw [List.map_cons, List.nodup_cons] at hm
    by_cases h : k = j
    · subst h
      have hnot : (k, v) ∉ rest := fun hmem => hm.1 (List.mem_map.2 ⟨(k, v), hmem, rfl⟩)
      simp [hnot, eq_comm]
    · have h' : (k == j) = false := beq_eq_false_iff_ne.2 h
      simp [List.lookup_cons, h, h', ih hm.2]

/-- With distinct keys, filtering for one key leaves its entry alone. -/
theorem itemsOf_eq_lookup (hm : (m.map Prod.fst).Nodup) (k : K) :
    itemsOf k m = (m.lookup k).toList := by
  induction m with
  | nil => rfl
  | cons p rest ih =>
    obtain ⟨j, w⟩ := p
    rw [List.map_cons, List.nodup_cons] at hm
    rw [itemsOf_cons]
    by_cases h : j = k
    · subst h
      have hnil : itemsOf j rest = [] := by
        refine List.eq_nil_iff_forall_not_mem.2 fun a ha => ?_
        exact hm.1 (List.mem_map.2 ⟨(j, a), mem_itemsOf.1 ha, rfl⟩)
      simp [hnil]
    · have h' : (k == j) = false := beq_eq_false_iff_ne.2 (Ne.symm h)
      simp [List.lookup_cons, h, h', ih hm.2]

theorem foldItems_some (init : A → V) (merge : V → A → V) (as : List A) :
    ∀ v : V, foldItems init merge (some v) as = some (as.foldl merge v) := by
  induction as with
  | nil => exact fun v => rfl
  | cons a as ih => exact fun v => ih (merge v a)

theorem foldItems_none_cons (init : A → V) (merge : V → A → V) (a : A) (as : List A) :
    foldItems init merge none (a :: as) = some (as.foldl merge (init a)) :=
  foldItems_some init merge as (init a)

/-- Where a first item is merged into a start value, the fold starts from there. -/
theorem getD_foldItems {init : A → V} {merge : V → A → V} {start : V}
    (h : ∀ a, init a = merge start a) (as : List A) :
    (foldItems init merge none as).getD start = as.foldl merge start := by
  cases as with
  | nil => rfl
  | cons a as => rw [foldItems_none_cons, Option.getD_some, List.foldl_cons, h]

/-- Collecting items keeps them all, in order. -/
theorem foldItems_collect (as : List A) :
    foldItems (fun a => [a]) (fun l a => l ++ [a]) none as = if as = [] then none else some as := by
  have hcollect : ∀ (as l : List A), as.foldl (fun l a => l ++ [a]) l = l ++ as := by
    intro as
    induction as with
    | nil => simp
    | cons a as ih => intro l; simp [ih]
  cases as with
  | nil => rfl
  | cons a as => simp [foldItems_none_cons, hcollect]

/-- When newer items replace older ones, the entry is the old one or one of the items. -/
theorem foldItems_replace {acc : Option A} {as : List A} {x : A}
    (h : foldItems id (fun _ a => a) acc as = some x) : acc = some x ∨ x ∈ as := by
  induction as generalizing acc with
  | nil => exact Or.inl (by simpa [foldItems] using h)
  | cons a as ih =>
    have h' : foldItems id (fun _ a => a) (some a) as = some x := by
      cases acc with
      | none => exact h
      | some y => exact h
    rcases ih h' with h'' | h''
    · exact Or.inr (by simp [Option.some.inj h''])
    · exact Or.inr (List.mem_cons_of_mem _ h'')

/-- When newer items replace older ones, the entry is the last item. -/
theorem foldItems_replace_eq_getLast? (as : List A) :
    foldItems id (fun _ a => a) none as = as.getLast? := by
  have hsome : ∀ (as : List A) (a : A),
      foldItems id (fun _ a => a) (some a) as = some (as.getLastD a) := by
    intro as
    induction as with
    | nil => exact fun a => rfl
    | cons b as ih => exact fun a => (ih b).trans (by rw [List.getLastD_cons])
  cases as with
  | nil => rfl
  | cons a as => exact (hsome as a).trans (by rw [List.getLast?_cons, List.getLastD_eq_getLast?])

/-- Looking up a key after every entry has been changed under its own key. -/
theorem lookup_map_entries {W : Type w} (f : K → V → W) (m : List (K × V)) (k : K) :
    (m.map fun p => (p.1, f p.1 p.2)).lookup k = (m.lookup k).map (f k) := by
  induction m with
  | nil => rfl
  | cons p rest ih =>
    obtain ⟨j, v⟩ := p
    by_cases h : k = j
    · subst h
      simp
    · simpa [List.lookup_cons, beq_eq_false_iff_ne.2 h] using ih

variable {keys : List K}

/-- Filing items under the keys of a list without repetition that has them all only reorders
them. -/
theorem perm_flatMap_itemsOf (hnodup : keys.Nodup) {l : List (K × A)} (hall : ∀ p ∈ l, p.1 ∈ keys) :
    (keys.flatMap fun k => itemsOf k l).Perm (l.map Prod.snd) := by
  induction l with
  | nil => simp
  | cons p l ih =>
    obtain ⟨before, behind, rfl⟩ := List.append_of_mem (hall p List.mem_cons_self)
    have hrest := ih fun p hp => hall p (List.mem_cons_of_mem _ hp)
    obtain ⟨-, hbehind, hdisjoint⟩ := List.nodup_append.1 hnodup
    have hother : ∀ keys : List K, p.1 ∉ keys →
        (keys.flatMap fun k => itemsOf k (p :: l)) = keys.flatMap fun k => itemsOf k l := by
      intro keys hp
      refine List.flatMap_congr fun k hk => ?_
      have hne : p.1 ≠ k := fun h => hp (h ▸ hk)
      rw [itemsOf_cons, if_neg hne]
    have hfront : p.1 ∉ before := fun h => hdisjoint _ h _ List.mem_cons_self rfl
    rw [List.flatMap_append, List.flatMap_cons, hother before hfront,
      hother behind (List.nodup_cons.1 hbehind).1, itemsOf_cons, if_pos rfl, List.map_cons]
    rw [List.flatMap_append, List.flatMap_cons] at hrest
    exact List.perm_middle.trans (hrest.cons p.2)

/-- Filing what elements contribute under keys keeps all of it. -/
theorem length_flatten_filed {X Y : Type*} (hnodup : keys.Nodup) (key : X → K) (f : X → List Y)
    {xs : List X} (hkey : ∀ x ∈ xs, f x ≠ [] → key x ∈ keys) :
    ((keys.map fun k => xs.flatMap fun x => if key x = k then f x else []).flatten).length =
      (xs.flatMap f).length := by
  let filed := xs.flatMap fun x => (f x).map fun y => (key x, y)
  have hitems : ∀ k, itemsOf k filed = xs.flatMap fun x => if key x = k then f x else [] := by
    intro k
    simp only [filed, itemsOf, List.filter_flatMap, List.map_flatMap]
    refine List.flatMap_congr fun x _ => ?_
    by_cases hk : key x = k <;> simp [hk, List.filter_map, Function.comp_def]
  have hall : ∀ p ∈ filed, p.1 ∈ keys := by
    intro p hp
    obtain ⟨x, hx, hp⟩ := List.mem_flatMap.1 hp
    obtain ⟨y, hy, rfl⟩ := List.mem_map.1 hp
    exact hkey x hx (List.ne_nil_of_mem hy)
  have hperm := (perm_flatMap_itemsOf hnodup hall).length_eq
  simp only [hitems] at hperm
  rw [← List.flatMap_def, hperm]
  simp only [filed, List.map_flatMap, List.map_map, Function.comp_def, List.map_id']

theorem upsertWith_of_notMem {k : K} (h : k ∉ m.map Prod.fst) (new : V) (upd : V → V) :
   upsertWith k new upd m = m ++ [(k, new)] := by
  induction m with
  | nil => rfl
  | cons e m ih =>
    rw [List.map_cons, List.mem_cons, not_or] at h
    rw [upsertWith, if_neg (Ne.symm h.1), ih h.2, List.cons_append]

/-- Items of different keys are never merged. -/
theorem accumulate_of_nodup (init : A → V) (merge : V → A → V) (l : List (K × A)) :
    ∀ m : List (K × V), (m.map Prod.fst ++ l.map Prod.fst).Nodup →
      accumulate init merge m l = m ++ l.map fun p => (p.1, init p.2) := by
  induction l with
  | nil => simp [accumulate]
  | cons p l ih =>
    intro m hnodup
    have hp : p.1 ∉ m.map Prod.fst := by
      intro hmem
      exact (List.nodup_append.1 hnodup).2.2 _ hmem _ List.mem_cons_self rfl
    have hstep : accumulate init merge m (p :: l) =
        accumulate init merge (upsertWith p.1 (init p.2) (fun v => merge v p.2) m) l := rfl
    rw [hstep, upsertWith_of_notMem hp, ih]
    · simp
    · simpa using hnodup

omit [DecidableEq K] in
/-- Filing that refines filing under keys, in no more places than there are keys, is filing under
keys. -/
theorem same_place_of_same_key {X : Type*} {xs : List X} {key : X → K} {place : X → Nat}
    (hnodup : keys.Nodup) (hused : ∀ k ∈ keys, ∃ x ∈ xs, key x = k)
    (hplace : ∀ x ∈ xs, place x < keys.length)
    (hfine : ∀ x ∈ xs, ∀ y ∈ xs, place x = place y → key x = key y) :
    ∀ x ∈ xs, ∀ y ∈ xs, key x = key y → place x = place y := by
  have hrep : ∀ i : Fin keys.length, ∃ x ∈ xs, key x = keys.get i :=
    fun i => hused _ (List.get_mem keys i)
  choose rep hmem hrepkey using hrep
  -- one place for each key, so every place belongs to a key
  let ρ : Fin keys.length → Fin keys.length := fun i => ⟨place (rep i), hplace _ (hmem i)⟩
  have hinj : Function.Injective ρ := by
    intro i j hij
    have hkeys := hfine _ (hmem i) _ (hmem j) (Fin.mk.inj hij)
    rw [hrepkey, hrepkey] at hkeys
    exact hnodup.injective_get hkeys
  have hsurj := Finite.injective_iff_surjective.1 hinj
  intro x hx y hy hxy
  obtain ⟨i, hi⟩ := hsurj ⟨place x, hplace x hx⟩
  obtain ⟨j, hj⟩ := hsurj ⟨place y, hplace y hy⟩
  have hix := hfine _ (hmem i) x hx (Fin.mk.inj hi)
  have hjy := hfine _ (hmem j) y hy (Fin.mk.inj hj)
  have hij : i = j := by
    apply hnodup.injective_get
    rw [← hrepkey i, ← hrepkey j, hix, hjy, hxy]
  subst hij
  exact Fin.mk.inj (hi.symm.trans hj)

end Lib.KeyedFold
