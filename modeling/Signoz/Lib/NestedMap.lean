import Mathlib.Data.List.Induction

/-!
# Nested maps

A value is a leaf or a map from keys to values, and a path of keys leads into it. Inserting a leaf
at a path makes the maps on its way, in place of leaves, and does not replace a map by a leaf:
nesting wins. What a path leads to, its `Entry`, determines a nested map (`ext_of_entry`), and
after any insertions it is what their paths say (`entry_insertAll`): a map under a longer path, and
otherwise the last leaf.
-/

namespace Lib.NestedMap

universe u v

variable {K : Type u} {V : Type v}

/-- A value of a nested map; `absent` stands where a map has no entry. -/
inductive Node (K : Type u) (V : Type v) where
  | absent
  | leaf (value : V)
  | map (entries : K → Node K V)

/-- What stands at the end of a path. -/
def Node.follow : List K → Node K V → Node K V
  | [], node => node
  | part :: rest, .map entries => (entries part).follow rest
  | _ :: _, _ => .absent

/-- What one sees of a value without looking into its maps. -/
inductive Entry (V : Type v) where
  | absent
  | leaf (value : V)
  | nested
deriving DecidableEq

def Node.entry : Node K V → Entry V
  | .absent => .absent
  | .leaf value => .leaf value
  | .map _ => .nested

@[simp] theorem Node.follow_nil (node : Node K V) : node.follow [] = node := rfl

@[simp] theorem Node.follow_map_cons (entries : K → Node K V) (part : K) (rest : List K) :
    (Node.map entries).follow (part :: rest) = (entries part).follow rest := rfl

@[simp] theorem Node.follow_absent (path : List K) :
    (Node.absent : Node K V).follow path = .absent := by
  cases path <;> rfl

theorem Node.entry_eq_nested {node : Node K V} :
    node.entry = .nested ↔ ∃ entries, node = .map entries := by
  cases node with
  | absent => simp [Node.entry]
  | leaf value => simp [Node.entry]
  | map entries => simp [Node.entry]

theorem Node.entry_eq_leaf {node : Node K V} {value : V} :
    node.entry = .leaf value ↔ node = .leaf value := by
  cases node with
  | absent => simp [Node.entry]
  | leaf other => simp [Node.entry]
  | map entries => simp [Node.entry]

/-- The entries at all paths determine a value. -/
theorem ext_of_entry {a b : Node K V}
    (h : ∀ path : List K, (a.follow path).entry = (b.follow path).entry) : a = b := by
  induction a generalizing b with
  | absent =>
    cases b with
    | absent => rfl
    | leaf value => cases h []
    | map entries => cases h []
  | leaf value =>
    cases b with
    | absent => cases h []
    | leaf other =>
      cases h []
      rfl
    | map entries => cases h []
  | map entries ih =>
    cases b with
    | absent => cases h []
    | leaf value => cases h []
    | map others =>
      congr 1
      funext part
      exact ih part fun path => h (part :: path)

/-- The entries of a map; other values have none. -/
def Node.inner : Node K V → K → Node K V
  | .map entries => entries
  | _ => fun _ => .absent

theorem Node.follow_inner {path : List K} (hpath : path ≠ []) (node : Node K V) :
    (Node.map node.inner).follow path = node.follow path := by
  cases path with
  | nil => exact absurd rfl hpath
  | cons part rest =>
    cases node with
    | absent => exact Node.follow_absent rest
    | leaf value => exact Node.follow_absent rest
    | map entries => rfl

/-- A leaf that comes to an entry: a map stays. -/
def Entry.put (value : V) : Entry V → Entry V
  | .nested => .nested
  | _ => .leaf value

theorem put_elim_leaf (value : V) {found : Option (List K × V)} :
    ((found.elim .absent fun item => .leaf item.2 : Entry V).put value) = .leaf value := by
  cases found <;> rfl

/-! ## Paths -/

/-- The first path ends on the way of the second. -/
def OnTheWay (path longer : List K) : Prop := path <+: longer ∧ path ≠ longer

theorem onTheWay_nil_cons (part : K) (rest : List K) : OnTheWay [] (part :: rest) :=
  ⟨List.nil_prefix, (List.cons_ne_nil part rest).symm⟩

theorem not_onTheWay_nil (path : List K) : ¬ OnTheWay path [] :=
  fun h => h.2 (List.prefix_nil.1 h.1)

theorem onTheWay_cons_cons {a b : K} {path longer : List K} :
    OnTheWay (a :: path) (b :: longer) ↔ a = b ∧ OnTheWay path longer := by
  unfold OnTheWay
  rw [List.cons_prefix_cons, and_assoc]
  refine and_congr_right fun hab => and_congr_right fun _ => not_congr ?_
  subst hab
  exact ⟨List.tail_eq_of_cons_eq, congrArg _⟩

/-- Values under one path are equal, unless some path goes on behind it. -/
def Consistent (items : List (List K × V)) : Prop :=
  ∀ a ∈ items, ∀ b ∈ items, a.1 = b.1 → (∀ c ∈ items, ¬ OnTheWay a.1 c.1) → a.2 = b.2

theorem Consistent.perm {items items' : List (List K × V)} (h : Consistent items)
    (hperm : items'.Perm items) : Consistent items' :=
  fun a ha b hb hab hlast => h a (hperm.mem_iff.1 ha) b (hperm.mem_iff.1 hb) hab
    fun c hc => hlast c (hperm.mem_iff.2 hc)

/-! ## Inserting -/

section Insert

variable [DecidableEq K]

instance (path longer : List K) : Decidable (OnTheWay path longer) :=
  inferInstanceAs (Decidable (_ ∧ _))

/-- Insert a leaf at a path that is not empty. -/
def insertAt (value : V) : List K → (K → Node K V) → K → Node K V
  | [], entries => entries
  | [part], entries =>
    match entries part with
    | .map _ => entries
    | _ => Function.update entries part (.leaf value)
  | part :: next :: rest, entries =>
    match entries part with
    | .map inner => Function.update entries part (.map (insertAt value (next :: rest) inner))
    | _ => Function.update entries part (.map (insertAt value (next :: rest) fun _ => .absent))

theorem insertAt_cons_cons (value : V) (part next : K) (rest : List K) (entries : K → Node K V) :
    insertAt value (part :: next :: rest) entries =
      Function.update entries part (.map (insertAt value (next :: rest) (entries part).inner)) := by
  rw [insertAt]
  cases entries part <;> rfl

/-- What an insertion makes of the entry at a path. -/
def entryAfter (value : V) (path p : List K) (before : Entry V) : Entry V :=
  if OnTheWay p path then .nested else if p = path then before.put value else before

theorem entryAfter_cons (value : V) (part : K) (path p : List K) (before : Entry V) :
    entryAfter value (part :: path) (part :: p) before = entryAfter value path p before := by
  simp only [entryAfter, onTheWay_cons_cons, true_and, List.cons.injEq]

theorem entryAfter_of_ne (value : V) {part a : K} (h : a ≠ part) (path p : List K)
    (before : Entry V) : entryAfter value (part :: path) (a :: p) before = before := by
  simp only [entryAfter, onTheWay_cons_cons, h, false_and, if_false, List.cons.injEq]

theorem entry_insertAt_singleton (value : V) (part : K) (entries : K → Node K V) (p : List K) :
    ((insertAt value [part] entries part).follow p).entry =
      entryAfter value [] p ((entries part).follow p).entry := by
  cases p with
  | nil =>
    rw [entryAfter, if_neg (not_onTheWay_nil []), if_pos rfl, insertAt]
    cases h : entries part with
    | absent => simp [Node.entry, Entry.put]
    | leaf other => simp [Node.entry, Entry.put]
    | map inner => simp [h, Node.entry, Entry.put]
  | cons a p =>
    rw [entryAfter, if_neg (not_onTheWay_nil _), if_neg (List.cons_ne_nil a p), insertAt]
    cases h : entries part with
    | absent => simp [Node.follow, Node.entry]
    | leaf other => simp [Node.follow, Node.entry]
    | map inner => simp [h]

theorem insertAt_of_ne (value : V) {part a : K} (h : a ≠ part) (path : List K)
    (entries : K → Node K V) : insertAt value (part :: path) entries a = entries a := by
  cases path with
  | nil =>
    rw [insertAt]
    cases entries part with
    | absent => exact Function.update_of_ne h _ _
    | leaf other => exact Function.update_of_ne h _ _
    | map inner => rfl
  | cons next rest =>
    rw [insertAt_cons_cons]
    exact Function.update_of_ne h _ _

theorem entry_insertAt (value : V) {path : List K} (hpath : path ≠ []) (entries : K → Node K V)
    (p : List K) :
    ((Node.map (insertAt value path entries)).follow p).entry =
      entryAfter value path p ((Node.map entries).follow p).entry := by
  induction path generalizing entries p with
  | nil => exact absurd rfl hpath
  | cons part path ih =>
    cases p with
    | nil =>
      rw [entryAfter, if_pos (onTheWay_nil_cons part path)]
      rfl
    | cons a p =>
      rw [Node.follow_map_cons, Node.follow_map_cons]
      by_cases ha : a = part
      · subst ha
        rw [entryAfter_cons]
        cases path with
        | nil => exact entry_insertAt_singleton value a entries p
        | cons next rest =>
          rw [insertAt_cons_cons, Function.update_self, ih (List.cons_ne_nil next rest)]
          by_cases hp : p = []
          · subst hp
            -- the way goes on, so what was there does not matter
            rw [entryAfter, entryAfter, if_pos (onTheWay_nil_cons next rest),
              if_pos (onTheWay_nil_cons next rest)]
          · rw [Node.follow_inner hp]
      · rw [insertAt_of_ne value ha, entryAfter_of_ne value ha]

/-! ## Many insertions -/

/-- Insert values one after another. -/
def insertAll (items : List (List K × V)) : K → Node K V :=
  items.foldl (fun entries item => insertAt item.2 item.1 entries) fun _ => .absent

/-- What the paths of some values say about a path: it leads to a map when one of them goes on
behind it, and otherwise to the value that was last. -/
def entryOf (items : List (List K × V)) (p : List K) : Entry V :=
  if p = [] ∨ ∃ item ∈ items, OnTheWay p item.1 then .nested
  else (items.reverse.find? fun item => item.1 = p).elim .absent fun item => .leaf item.2

variable {items : List (List K × V)}

theorem entryOf_of_nested {p : List K} (h : p = [] ∨ ∃ item ∈ items, OnTheWay p item.1) :
   entryOf items p = .nested :=
  if_pos h

theorem entryOf_of_not_nested {p : List K} (h : ¬ (p = [] ∨ ∃ item ∈ items, OnTheWay p item.1)) :
    entryOf items p =
      (items.reverse.find? fun item => item.1 = p).elim .absent fun item => .leaf item.2 :=
  if_neg h

theorem entryOf_append_singleton (items : List (List K × V)) (item : List K × V) (p : List K) :
    entryOf (items ++ [item]) p = entryAfter item.2 item.1 p (entryOf items p) := by
  have hmore : (∃ i ∈ items ++ [item], OnTheWay p i.1) ↔
      (∃ i ∈ items, OnTheWay p i.1) ∨ OnTheWay p item.1 := by
    simp only [List.mem_append, List.mem_singleton]
    constructor
    · rintro ⟨i, hi | rfl, hway⟩
      · exact Or.inl ⟨i, hi, hway⟩
      · exact Or.inr hway
    · rintro (⟨i, hi, hway⟩ | hway)
      · exact ⟨i, Or.inl hi, hway⟩
      · exact ⟨item, Or.inr rfl, hway⟩
  by_cases hnested : p = [] ∨ ∃ i ∈ items, OnTheWay p i.1
  · have hafter : p = [] ∨ ∃ i ∈ items ++ [item], OnTheWay p i.1 :=
      hnested.imp id fun h => hmore.2 (Or.inl h)
    rw [entryOf_of_nested hafter, entryOf_of_nested hnested, entryAfter]
    split
    · rfl
    · split <;> rfl
  · by_cases hway : OnTheWay p item.1
    · rw [entryOf_of_nested (Or.inr (hmore.2 (Or.inr hway))), entryAfter, if_pos hway]
    · have hafter : ¬ (p = [] ∨ ∃ i ∈ items ++ [item], OnTheWay p i.1) := by
        rintro (hp | h)
        · exact hnested (Or.inl hp)
        · rcases hmore.1 h with h | h
          · exact hnested (Or.inr h)
          · exact hway h
      rw [entryOf_of_not_nested hafter, entryOf_of_not_nested hnested, entryAfter, if_neg hway,
        List.reverse_append, List.reverse_singleton, List.singleton_append, List.find?_cons]
      by_cases hp : item.1 = p
      · rw [if_pos hp.symm, put_elim_leaf]
        simp [hp]
      · rw [if_neg (Ne.symm hp)]
        simp [hp]

/-- What insertions leave at a path is what their paths say. -/
theorem entry_insertAll (hpaths : ∀ item ∈ items, item.1 ≠ []) (p : List K) :
   ((Node.map (insertAll items)).follow p).entry = entryOf items p := by
  induction items using List.reverseRecOn with
  | nil =>
    cases p with
    | nil => rfl
    | cons part rest =>
      rw [insertAll, List.foldl_nil, Node.follow_map_cons, Node.follow_absent, entryOf,
        if_neg (by simp)]
      rfl
  | append_singleton items item ih =>
    have hitem := hpaths item (List.mem_append_right _ List.mem_cons_self)
    have hbefore := ih fun i hi => hpaths i (List.mem_append_left _ hi)
    have hstep : insertAll (items ++ [item]) = insertAt item.2 item.1 (insertAll items) := by
      rw [insertAll, List.foldl_append]
      rfl
    rw [hstep, entry_insertAt item.2 hitem, hbefore, entryOf_append_singleton]

/-! ## The order of insertions -/

variable {a : List K × V}

/-- A path that only one value has, and behind which no path goes on. -/
theorem entryOf_eq_leaf_of_alone (ha : a ∈ items) (hpath : a.1 ≠ [])
    (hlast : ∀ c ∈ items, ¬ OnTheWay a.1 c.1) (halone : ∀ b ∈ items, b.1 = a.1 → b.2 = a.2) :
   entryOf items a.1 = .leaf a.2 := by
  have hnot : ¬ (a.1 = [] ∨ ∃ c ∈ items, OnTheWay a.1 c.1) := by
    rintro (h | ⟨c, hc, hway⟩)
    · exact hpath h
    · exact hlast c hc hway
  rw [entryOf_of_not_nested hnot]
  cases hfind : items.reverse.find? fun item => item.1 = a.1 with
  | none =>
    have hno := List.find?_eq_none.1 hfind a (List.mem_reverse.2 ha)
    simp at hno
  | some b =>
    have hb := List.mem_reverse.1 (List.mem_of_find?_eq_some hfind)
    have hpath : b.1 = a.1 := by simpa using List.find?_some hfind
    simp [halone b hb hpath]

theorem Consistent.entryOf (hitems : Consistent items) (ha : a ∈ items) (hpath : a.1 ≠ [])
    (hlast : ∀ c ∈ items, ¬ OnTheWay a.1 c.1) : entryOf items a.1 = .leaf a.2 :=
  entryOf_eq_leaf_of_alone ha hpath hlast fun b hb hba =>
    (hitems a ha b hb hba.symm hlast).symm

theorem entryOf_eq_absent {p : List K} (hp : p ≠ [])
    (hnone : ∀ c ∈ items, ¬ OnTheWay p c.1 ∧ c.1 ≠ p) : entryOf items p = .absent := by
  have hnot : ¬ (p = [] ∨ ∃ c ∈ items, OnTheWay p c.1) := by
    rintro (h | ⟨c, hc, hway⟩)
    · exact hp h
    · exact (hnone c hc).1 hway
  rw [entryOf_of_not_nested hnot]
  have hfind : (items.reverse.find? fun item => item.1 = p) = none := by
    refine List.find?_eq_none.2 fun c hc => ?_
    simpa using (hnone c (List.mem_reverse.1 hc)).2
  rw [hfind]
  rfl

theorem entryOf_perm {items items' : List (List K × V)} (h : Consistent items)
    (hperm : items'.Perm items) (p : List K) : entryOf items' p = entryOf items p := by
  by_cases hnested : p = [] ∨ ∃ item ∈ items, OnTheWay p item.1
  · have hnested' : p = [] ∨ ∃ item ∈ items', OnTheWay p item.1 :=
      hnested.imp id fun ⟨item, hmem, hway⟩ => ⟨item, hperm.mem_iff.2 hmem, hway⟩
    rw [entryOf_of_nested hnested, entryOf_of_nested hnested']
  · obtain ⟨hp, hlast⟩ := not_or.1 hnested
    have hlast' : ∀ c ∈ items, ¬ OnTheWay p c.1 := fun c hc hway => hlast ⟨c, hc, hway⟩
    by_cases hhas : ∃ a ∈ items, a.1 = p
    · obtain ⟨a, ha, rfl⟩ := hhas
      rw [h.entryOf ha hp hlast', (h.perm hperm).entryOf (hperm.mem_iff.2 ha) hp
        fun c hc => hlast' c (hperm.mem_iff.1 hc)]
    · have hnone : ∀ c ∈ items, ¬ OnTheWay p c.1 ∧ c.1 ≠ p :=
        fun c hc => ⟨hlast' c hc, fun hcp => hhas ⟨c, hc, hcp⟩⟩
      rw [entryOf_eq_absent hp hnone,
        entryOf_eq_absent hp fun c hc => hnone c (hperm.mem_iff.1 hc)]

/-- The value that comes last is kept, unless some path goes on behind it. -/
theorem entryOf_last (hpath : a.1 ≠ []) (hlast : ∀ c ∈ items ++ [a], ¬ OnTheWay a.1 c.1) :
    entryOf (items ++ [a]) a.1 = .leaf a.2 := by
  have hnot : ¬ (a.1 = [] ∨ ∃ c ∈ items ++ [a], OnTheWay a.1 c.1) := by
    rintro (h | ⟨c, hc, hway⟩)
    · exact hpath h
    · exact hlast c hc hway
  rw [entryOf_of_not_nested hnot, List.reverse_append, List.reverse_singleton,
    List.singleton_append, List.find?_cons_of_pos (by simp)]
  rfl

/-- Insertions can be made in every order if and only if they are consistent. -/
theorem insertAll_perm_iff (hpaths : ∀ item ∈ items, item.1 ≠ []) :
    (∀ items' : List (List K × V), items'.Perm items → insertAll items' = insertAll items) ↔
      Consistent items := by
  constructor
  · intro horder a ha b hb hab hlast
    -- each of the two values can be the last one
    have hput : ∀ c ∈ items, c.1 = a.1 → entryOf items a.1 = .leaf c.2 := by
      intro c hc hca
      obtain ⟨before, behind, rfl⟩ := List.append_of_mem hc
      have hperm : ((before ++ behind) ++ [c]).Perm (before ++ c :: behind) :=
        (List.perm_append_singleton c _).trans List.perm_middle.symm
      have heq := horder _ hperm
      have hentry := entry_insertAll hpaths a.1
      rw [← heq, entry_insertAll fun item hitem => hpaths item (hperm.mem_iff.1 hitem)] at hentry
      rw [← hentry, ← hca]
      refine entryOf_last (hpaths c hc) fun d hd => ?_
      rw [hca]
      exact hlast d (hperm.mem_iff.1 hd)
    have hleaf := (hput a ha rfl).symm.trans (hput b hb hab.symm)
    exact Entry.leaf.inj hleaf
  · intro hitems items' hperm
    have hmap : (Node.map (insertAll items')) = Node.map (insertAll items) := by
      refine ext_of_entry fun p => ?_
      rw [entry_insertAll hpaths,
        entry_insertAll fun item hitem => hpaths item (hperm.mem_iff.1 hitem)]
      exact entryOf_perm hitems hperm p
    exact Node.map.inj hmap

end Insert

end Lib.NestedMap
