import Mathlib.Data.List.Nodup
import Mathlib.Data.List.Perm.Basic

/-!
# Ordered trees and their nodes in pre-order

A tree is a label and a list of trees. `places` lists the nodes of a tree in pre-order, each with
the labels above it, the parent first, and whether a sibling follows. Two trees are `Reordered`
when they differ in the order of the children only, at any depth; `reorder f` is the tree with every
list of children put through `f`.

The nodes of a tree stand under labels that are nodes themselves (`above_mem_places`).
-/

namespace Lib.RoseTree

/-- A tree with a list of children at each node. -/
inductive Rose (α : Type) where
  | node (label : α) (children : List (Rose α))

variable {α κ : Type}

namespace Rose

def label : Rose α → α
  | node a _ => a

def children : Rose α → List (Rose α)
  | node _ cs => cs

@[simp] theorem label_node (a : α) (cs : List (Rose α)) : (node a cs).label = a := rfl

@[simp] theorem children_node (a : α) (cs : List (Rose α)) : (node a cs).children = cs := rfl

mutual

/-- The subtrees in pre-order, the tree itself first. -/
def subtrees : Rose α → List (Rose α)
  | node a cs => node a cs :: subtreesOf cs

def subtreesOf : List (Rose α) → List (Rose α)
  | [] => []
  | c :: rest => subtrees c ++ subtreesOf rest

end

/-- The number of nodes. -/
def size (t : Rose α) : Nat := t.subtrees.length

theorem self_mem_subtrees (t : Rose α) : t ∈ t.subtrees := by
  cases t
  exact List.mem_cons_self

theorem subtreesOf_eq (ts : List (Rose α)) : subtreesOf ts = ts.flatMap subtrees := by
  induction ts with
  | nil => rfl
  | cons t ts ih => rw [subtreesOf, ih, List.flatMap_cons]

theorem sublist_subtreesOf (ts : List (Rose α)) : ts.Sublist (subtreesOf ts) := by
  induction ts with
  | nil => exact List.Sublist.refl _
  | cons t ts ih =>
    cases t with
    | node a cs =>
      rw [subtreesOf, subtrees, List.cons_append]
      exact (ih.trans (List.sublist_append_right _ _)).cons_cons _

theorem mem_subtrees_of_mem_children {t c n : Rose α} (hc : c ∈ t.children)
    (hn : n ∈ c.subtrees) : n ∈ t.subtrees := by
  cases t with
  | node a cs =>
    rw [subtrees, subtreesOf_eq]
    exact List.mem_cons_of_mem _ (List.mem_flatMap.2 ⟨c, hc, hn⟩)

/-- Induction over the nodes: a property of all children passes to the tree. -/
theorem induction {P : Rose α → Prop} (node : ∀ a cs, (∀ c ∈ cs, P c) → P (node a cs)) :
    ∀ t, P t
  | .node a cs => node a cs fun c _ => induction node c

end Rose

open Rose

/-! ## Places -/

/-- A node of a tree: the labels above it, the parent first, the subtree at it, and whether a
sibling follows. -/
structure Place (α : Type) where
  above : List α
  node : Rose α
  followed : Bool

mutual

/-- The nodes in pre-order, those of a tree under the labels `above`. -/
def places (above : List α) (followed : Bool) : Rose α → List (Place α)
  | node a cs => ⟨above, node a cs, followed⟩ :: placesOf (a :: above) cs

def placesOf (above : List α) : List (Rose α) → List (Place α)
  | [] => []
  | c :: rest => places above (!rest.isEmpty) c ++ placesOf above rest

end

mutual

@[simp] theorem map_node_places (above : List α) (followed : Bool) :
    ∀ t : Rose α, (places above followed t).map Place.node = t.subtrees
  | node a cs => by rw [places, List.map_cons, map_node_placesOf (a :: above) cs, subtrees]

@[simp] theorem map_node_placesOf (above : List α) :
    ∀ ts : List (Rose α), (placesOf above ts).map Place.node = subtreesOf ts
  | [] => rfl
  | c :: rest => by
    rw [placesOf, List.map_append, map_node_places above _ c, map_node_placesOf above rest,
      subtreesOf]

end

/-- A place of one of the trees, together with all places of that tree. -/
theorem mem_placesOf {above : List α} {ts : List (Rose α)} {p : Place α}
    (hp : p ∈ placesOf above ts) :
    ∃ t ∈ ts, ∃ followed, p ∈ places above followed t ∧
      places above followed t ⊆ placesOf above ts := by
  induction ts with
  | nil => cases hp
  | cons t ts ih =>
    rw [placesOf] at hp ⊢
    cases List.mem_append.1 hp with
    | inl hp => exact ⟨t, List.mem_cons_self, _, hp, List.subset_append_left _ _⟩
    | inr hp =>
      obtain ⟨u, hu, followed, hpu, hsub⟩ := ih hp
      exact ⟨u, List.mem_cons_of_mem t hu, followed, hpu,
        List.Subset.trans hsub (List.subset_append_right _ _)⟩

theorem placesOf_append (above : List α) (ts us : List (Rose α)) :
    ∃ ps, placesOf above (ts ++ us) = ps ++ placesOf above us := by
  induction ts with
  | nil => exact ⟨[], rfl⟩
  | cons t ts ih =>
    obtain ⟨ps, hps⟩ := ih
    refine ⟨places above (!(ts ++ us).isEmpty) t ++ ps, ?_⟩
    rw [List.cons_append, placesOf, hps, List.append_assoc]

/-- The places of one of the trees among those of all. -/
theorem placesOf_split (above : List α) (ts us : List (Rose α)) (t : Rose α) :
    ∃ before followed after,
      placesOf above (ts ++ t :: us) = before ++ places above followed t ++ after := by
  obtain ⟨before, h⟩ := placesOf_append above ts (t :: us)
  refine ⟨before, !us.isEmpty, placesOf above us, ?_⟩
  rw [h, placesOf, List.append_assoc]

theorem places_eq_cons (above : List α) (followed : Bool) (t : Rose α) :
    places above followed t = ⟨above, t, followed⟩ :: placesOf (t.label :: above) t.children := by
  cases t
  rfl

/-- Above a place stand the labels the tree itself is under. -/
theorem suffix_above {above : List α} {followed : Bool} {t : Rose α} {p : Place α}
    (hp : p ∈ places above followed t) : above <:+ p.above := by
  induction t using Rose.induction generalizing above followed with
  | node a cs ih =>
    rw [places, List.mem_cons] at hp
    cases hp with
    | inl hp =>
      subst hp
      exact List.suffix_rfl
    | inr hp =>
      obtain ⟨c, hc, _, hp, _⟩ := mem_placesOf hp
      exact (List.suffix_cons a above).trans (ih c hc hp)

/-- The labels above a place are places themselves, each under the labels that follow it. -/
theorem above_mem_places {above : List α} {followed : Bool} {t : Rose α} {p : Place α}
    (hp : p ∈ places above followed t) {a : α} {as : List α} (hs : (a :: as) <:+ p.above)
    (hlen : above.length ≤ as.length) :
    ∃ q ∈ places above followed t, q.node.label = a ∧ q.above = as := by
  induction t using Rose.induction generalizing above followed with
  | node b cs ih =>
    rw [places, List.mem_cons] at hp
    cases hp with
    | inl hp =>
      subst hp
      have hle : (a :: as).length ≤ above.length := hs.length_le
      rw [List.length_cons] at hle
      omega
    | inr hp =>
      obtain ⟨c, hc, f, hpc, hsub⟩ := mem_placesOf hp
      rcases Nat.lt_or_eq_of_le hlen with hlt | heq
      · obtain ⟨q, hq, hrest⟩ := ih c hc hpc (by rw [List.length_cons]; omega)
        exact ⟨q, List.mem_cons_of_mem _ (hsub hq), hrest⟩
      · -- the label is the one of this node
        have hlength : (a :: as).length = (b :: above).length := by
          rw [List.length_cons, List.length_cons, heq]
        have hsame : a :: as = b :: above := by
          rcases List.suffix_or_suffix_of_suffix hs (suffix_above hpc) with h | h
          · exact h.eq_of_length hlength
          · exact (h.eq_of_length hlength.symm).symm
        obtain ⟨rfl, rfl⟩ := List.cons.inj hsame
        exact ⟨_, List.mem_cons_self, rfl, rfl⟩

/-! ## Other orders of the children -/

mutual

/-- The tree with every list of children put through `f`, the lower ones first. -/
def reorder (f : List (Rose α) → List (Rose α)) : Rose α → Rose α
  | node a cs => node a (f (reorderAll f cs))

def reorderAll (f : List (Rose α) → List (Rose α)) : List (Rose α) → List (Rose α)
  | [] => []
  | c :: rest => reorder f c :: reorderAll f rest

end

theorem reorderAll_eq (f : List (Rose α) → List (Rose α)) (ts : List (Rose α)) :
    reorderAll f ts = ts.map (reorder f) := by
  induction ts with
  | nil => rfl
  | cons t ts ih => rw [reorderAll, ih, List.map_cons]

theorem reorder_node (f : List (Rose α) → List (Rose α)) (a : α) (cs : List (Rose α)) :
    reorder f (node a cs) = node a (f (cs.map (reorder f))) := by
  rw [reorder, reorderAll_eq]

@[simp] theorem label_reorder (f : List (Rose α) → List (Rose α)) (t : Rose α) :
    (reorder f t).label = t.label := by
  cases t
  rfl

mutual

/-- The trees differ in the order of the children only. -/
def Reordered : Rose α → Rose α → Prop
  | node a cs, t => t.label = a ∧ ∃ ds, ReorderedAll cs ds ∧ ds.Perm t.children

def ReorderedAll : List (Rose α) → List (Rose α) → Prop
  | [], ds => ds = []
  | c :: rest, ds => ∃ d ds', ds = d :: ds' ∧ Reordered c d ∧ ReorderedAll rest ds'

end

theorem reorderedAll_iff (ts us : List (Rose α)) :
    ReorderedAll ts us ↔ List.Forall₂ Reordered ts us := by
  induction ts generalizing us with
  | nil => rw [ReorderedAll, List.forall₂_nil_left_iff]
  | cons t ts ih =>
    rw [ReorderedAll, List.forall₂_cons_left_iff]
    constructor
    · rintro ⟨u, us', rfl, hu, hus⟩
      exact ⟨u, us', hu, (ih us').1 hus, rfl⟩
    · rintro ⟨u, us', hu, hus, rfl⟩
      exact ⟨u, us', rfl, hu, (ih us').2 hus⟩

theorem reordered_node {a : α} {cs : List (Rose α)} {t : Rose α} :
    Reordered (node a cs) t ↔
      t.label = a ∧ ∃ ds, List.Forall₂ Reordered cs ds ∧ ds.Perm t.children := by
  simp only [Reordered, reorderedAll_iff]

/-- Children through a function that keeps each of them up to order, and then in another order. -/
theorem reordered_of_map {a : α} {cs es : List (Rose α)} (g : Rose α → Rose α)
    (hg : ∀ c ∈ cs, Reordered c (g c)) (hperm : (cs.map g).Perm es) :
    Reordered (node a cs) (node a es) := by
  rw [reordered_node]
  exact ⟨rfl, cs.map g, List.forall₂_map_right_iff.2 (List.forall₂_same.2 hg), hperm⟩

theorem Reordered.refl (t : Rose α) : Reordered t t := by
  induction t using Rose.induction with
  | node a cs ih => exact reordered_of_map id ih (by rw [List.map_id])

theorem Reordered.label_eq {t u : Rose α} (h : Reordered t u) : u.label = t.label := by
  cases t with
  | node a cs => exact (reordered_node.1 h).1

/-- The nodes with the labels above them, without what depends on the order. -/
def Place.stand (p : Place α) : α × List α := (p.node.label, p.above)

theorem stands_places (above : List α) (followed followed' : Bool) (t : Rose α) :
    (places above followed t).map Place.stand = (places above followed' t).map Place.stand := by
  cases t
  rfl

theorem stands_placesOf (above : List α) (ts : List (Rose α)) :
    (placesOf above ts).map Place.stand =
      ts.flatMap fun t => (places above false t).map Place.stand := by
  induction ts with
  | nil => rfl
  | cons t ts ih =>
    rw [placesOf, List.map_append, ih, List.flatMap_cons, stands_places above _ false]

theorem flatMap_perm_of_forall₂ {β γ : Type} {R : β → β → Prop} {f : β → List γ} {l l' : List β}
    (h : List.Forall₂ R l l') (hf : ∀ b ∈ l, ∀ b', R b b' → (f b).Perm (f b')) :
    (l.flatMap f).Perm (l'.flatMap f) := by
  induction h with
  | nil => exact List.Perm.refl _
  | cons hb _ ih =>
    rw [List.flatMap_cons, List.flatMap_cons]
    apply List.Perm.append
    · exact hf _ List.mem_cons_self _ hb
    · exact ih fun b hb => hf b (List.mem_cons_of_mem _ hb)

/-- Another order of the children leaves every node under the labels it was under. -/
theorem Reordered.perm_stands {t u : Rose α} (h : Reordered t u) (above : List α)
    (followed followed' : Bool) :
    ((places above followed t).map Place.stand).Perm
      ((places above followed' u).map Place.stand) := by
  induction t using Rose.induction generalizing u above followed followed' with
  | node a cs ih =>
    cases u with
    | node b es =>
      obtain ⟨hlabel, ds, hcs, hperm⟩ := reordered_node.1 h
      rw [label_node] at hlabel
      subst hlabel
      rw [places, places, List.map_cons, List.map_cons, stands_placesOf, stands_placesOf]
      apply List.Perm.cons
      have hchildren : (cs.flatMap fun t => (places (b :: above) false t).map Place.stand).Perm
          (ds.flatMap fun t => (places (b :: above) false t).map Place.stand) :=
        flatMap_perm_of_forall₂ hcs fun c hc d hcd => ih c hc hcd _ _ _
      exact hchildren.trans (hperm.flatMap_right _)

theorem reordered_reorder {f : List (Rose α) → List (Rose α)} (hf : ∀ ts, (f ts).Perm ts)
    (t : Rose α) : Reordered t (reorder f t) := by
  induction t using Rose.induction with
  | node a cs ih =>
    rw [reorder_node]
    exact reordered_of_map (reorder f) ih (hf _).symm

end Lib.RoseTree
