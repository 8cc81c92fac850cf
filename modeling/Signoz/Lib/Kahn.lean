import Mathlib.Data.List.Basic
import Mathlib.Order.Preorder.Finite

/-!
# Kahn's algorithm

A graph is a list of nodes with the successors of each. The loop keeps for every node the number of
edges into it from nodes that are not in the order yet, and a queue of nodes without any. All nodes
come into the order exactly on a graph without a cycle (`Running.perm_iff`), and every edge leads on
in it (`kahn_running`).
-/

namespace Lib.Kahn

universe u

variable {N : Type u} [DecidableEq N]

/-- The edges into a node from the nodes of a list. -/
def inDegree (adj : N → List N) (nodes : List N) (n : N) : Int :=
  ((nodes.flatMap adj).count n : Int)

/-- One successor of the current node: its number goes down, and at zero it enters the queue. -/
def release (s : (N → Int) × List N) (neighbor : N) : (N → Int) × List N :=
  let degree := Function.update s.1 neighbor (s.1 neighbor - 1)
  (degree, if degree neighbor = 0 then s.2 ++ [neighbor] else s.2)

/-- The loop, with at most `fuel` rounds. -/
def kahn (adj : N → List N) : Nat → (N → Int) → List N → List N → List N
  | 0, _, _, order => order
  | _ + 1, _, [], order => order
  | fuel + 1, degree, current :: queue, order =>
    let (degree, queue) := (adj current).foldl release (degree, queue)
    kahn adj fuel degree queue (order ++ [current])

/-! ## One round -/

/-- After a round, every number has gone down by the edges from the current node, and the nodes
whose number has come to zero have entered the queue. -/
theorem foldl_release {l : List N} :
    ∀ (degree : N → Int) (queue : List N), (∀ n, (l.count n : Int) ≤ degree n) →
      ∃ pushed : List N,
        l.foldl release (degree, queue) = (fun n => degree n - l.count n, queue ++ pushed) ∧
          pushed.Nodup ∧ ∀ n, n ∈ pushed ↔ n ∈ l ∧ degree n = l.count n := by
  induction l with
  | nil =>
    intro degree queue _
    refine ⟨[], ?_, List.nodup_nil, by simp⟩
    simp
  | cons x rest ih =>
    intro degree queue hle
    have hcount : ∀ n, ((x :: rest).count n : Int) = rest.count n + if x = n then 1 else 0 := by
      intro n
      rw [List.count_cons]
      by_cases h : x = n
      · simp [h]
      · simp [h]
    have hupdate : ∀ n, Function.update degree x (degree x - 1) n =
        degree n - if x = n then 1 else 0 := by
      intro n
      by_cases h : x = n
      · subst h
        simp
      · rw [Function.update_of_ne (Ne.symm h), if_neg h]
        omega
    have hrest : ∀ n, (rest.count n : Int) ≤ Function.update degree x (degree x - 1) n := by
      intro n
      have h := hle n
      rw [hcount] at h
      rw [hupdate]
      omega
    have hself : Function.update degree x (degree x - 1) x = degree x - 1 :=
      Function.update_self ..
    rw [List.foldl_cons, release]
    simp only [hself]
    by_cases hzero : degree x - 1 = 0
    · -- The node enters the queue, and does not occur again.
      rw [if_pos hzero]
      obtain ⟨pushed, heq, hnodup, hmem⟩ := ih _ (queue ++ [x]) hrest
      have hx : rest.count x = 0 := by
        have h := hrest x
        rw [hself, hzero] at h
        omega
      have hnot : x ∉ rest := List.count_eq_zero.1 hx
      refine ⟨x :: pushed, ?_, ?_, ?_⟩
      · rw [heq, List.append_assoc]
        congr 1
        funext n
        rw [hupdate, hcount]
        omega
      · rw [List.nodup_cons]
        exact ⟨fun h => hnot ((hmem x).1 h).1, hnodup⟩
      · intro n
        rw [List.mem_cons, hmem, List.mem_cons, hupdate, hcount]
        by_cases hn : x = n
        · subst hn
          simp only [true_or, true_and, if_true, true_iff]
          omega
        · simp only [Ne.symm hn, false_or, hn, if_false, Int.add_zero, Int.sub_zero]
    · rw [if_neg hzero]
      obtain ⟨pushed, heq, hnodup, hmem⟩ := ih _ queue hrest
      refine ⟨pushed, ?_, hnodup, ?_⟩
      · rw [heq]
        congr 1
        funext n
        rw [hupdate, hcount]
        omega
      · intro n
        rw [hmem, List.mem_cons, hupdate, hcount]
        by_cases hn : x = n
        · subst hn
          simp only [true_or, true_and, if_true]
          constructor
          · rintro ⟨-, h⟩
            omega
          · intro h
            have hpos : 0 < rest.count x := by
              have := hrest x
              rw [hself] at this
              omega
            exact ⟨List.count_pos_iff.1 hpos, by omega⟩
        · simp only [Ne.symm hn, false_or, hn, if_false, Int.add_zero, Int.sub_zero]

/-! ## The loop -/

/-- What holds before every round. -/
structure Running (adj : N → List N) (nodes : List N) (degree : N → Int)
    (queue order : List N) : Prop where
  counts : ∀ n, degree n = inDegree adj (nodes.filter (· ∉ order)) n
  nodup : (order ++ queue).Nodup
  subset : ∀ n ∈ order ++ queue, n ∈ nodes
  free : ∀ n ∈ nodes, degree n = 0 ↔ n ∈ order ++ queue

variable {adj : N → List N} {nodes : List N}

/-- Taking a node off a list without repetition takes its edges off. -/
theorem inDegree_erase {l : List N} {current : N} (hnodup : l.Nodup) (hmem : current ∈ l) (n : N) :
    inDegree adj (l.filter (· ≠ current)) n = inDegree adj l n - (adj current).count n := by
  have hperm : l.Perm (current :: l.filter (· ≠ current)) := by
    have herase : l.erase current = l.filter (· ≠ current) := by
      rw [hnodup.erase_eq_filter]
      apply List.filter_congr
      intro n _
      by_cases h : n = current
      · simp [h]
      · simp [h]
    rw [← herase]
    exact List.perm_cons_erase hmem
  have hcount : (l.flatMap adj).count n =
      ((current :: l.filter (· ≠ current)).flatMap adj).count n :=
    (hperm.flatMap_right adj).count_eq n
  rw [List.flatMap_cons, List.count_append] at hcount
  rw [inDegree, inDegree]
  omega

theorem filter_concat {order : List N} (current : N) :
    nodes.filter (· ∉ order ++ [current]) =
      (nodes.filter (· ∉ order)).filter (· ≠ current) := by
  rw [List.filter_filter]
  apply List.filter_congr
  intro n _
  by_cases h : n = current
  · simp [h]
  · simp [h]

variable {degree : N → Int} {queue order : List N}

theorem Running.round {current : N} (h : Running adj nodes degree (current :: queue) order)
    (hnodup : nodes.Nodup) (hinside : ∀ n ∈ nodes, ∀ c ∈ adj n, c ∈ nodes) :
    Running adj nodes ((adj current).foldl release (degree, queue)).1
      ((adj current).foldl release (degree, queue)).2 (order ++ [current]) := by
  have hcurrent : current ∈ nodes := h.subset current (by simp)
  have hleft : current ∈ nodes.filter (· ∉ order) := by
    have hnot : current ∉ order := by
      intro hin
      exact (List.nodup_append.1 h.nodup).2.2 current hin current (by simp) rfl
    simpa using ⟨hcurrent, hnot⟩
  have hdown : ∀ n, degree n - (adj current).count n =
      inDegree adj (nodes.filter (· ∉ order ++ [current])) n := by
    intro n
    rw [filter_concat, inDegree_erase (hnodup.filter _) hleft, h.counts n]
  have hle : ∀ n, ((adj current).count n : Int) ≤ degree n := by
    intro n
    have hpos : 0 ≤ inDegree adj (nodes.filter (· ∉ order ++ [current])) n := by
      rw [inDegree]
      omega
    have := hdown n
    omega
  obtain ⟨pushed, heq, hpushed, hmem⟩ := foldl_release degree queue hle
  rw [heq]
  have hlist : order ++ [current] ++ (queue ++ pushed) = (order ++ current :: queue) ++ pushed := by
    simp
  -- What enters the queue had edges from the current node, so it was not there before.
  have hnew : ∀ n ∈ pushed, n ∈ nodes ∧ n ∉ order ++ current :: queue := by
    intro n hn
    obtain ⟨hadj, hdeg⟩ := (hmem n).1 hn
    have hnodes : n ∈ nodes := hinside current hcurrent n hadj
    refine ⟨hnodes, ?_⟩
    intro hin
    have hzero := (h.free n hnodes).2 hin
    have hpos := List.count_pos_iff.2 hadj
    omega
  refine ⟨hdown, ?_, ?_, ?_⟩
  · rw [hlist, List.nodup_append]
    refine ⟨h.nodup, hpushed, ?_⟩
    intro a ha b hb hab
    exact (hnew b hb).2 (hab ▸ ha)
  · intro n hn
    rw [hlist, List.mem_append] at hn
    rcases hn with hold | hn
    · exact h.subset n hold
    · exact (hnew n hn).1
  · intro n hn
    rw [hlist, List.mem_append, hmem, ← h.free n hn]
    change degree n - (adj current).count n = 0 ↔ _
    have := hle n
    constructor
    · intro hzero
      by_cases hadj : n ∈ adj current
      · exact Or.inr ⟨hadj, by omega⟩
      · have := List.count_eq_zero.2 hadj
        exact Or.inl (by omega)
    · rintro (hzero | ⟨-, hdeg⟩)
      · omega
      · omega

/-- Every edge to a node of the order leads on in it. -/
def Forward (adj : N → List N) (nodes order : List N) : Prop :=
  ∀ p ∈ nodes, ∀ c ∈ adj p, c ∈ order → order.idxOf p < order.idxOf c

/-- A node enters the queue after all nodes with an edge to it. -/
theorem Running.mem_of_edge (h : Running adj nodes degree queue order) {p c : N} (hp : p ∈ nodes)
    (hedge : c ∈ adj p) (hc : c ∈ order ++ queue) : p ∈ order := by
  have hzero := (h.free c (h.subset c hc)).2 hc
  rw [h.counts, inDegree] at hzero
  have hnot : c ∉ (nodes.filter (· ∉ order)).flatMap adj := List.count_eq_zero.1 (by omega)
  by_contra hout
  exact hnot (List.mem_flatMap.2 ⟨p, by simpa using ⟨hp, hout⟩, hedge⟩)

theorem Running.forward {current : N} (h : Running adj nodes degree (current :: queue) order)
    (hforward : Forward adj nodes order) :
    Forward adj nodes (order ++ [current]) := by
  intro p hp c hedge hc
  have hin : p ∈ order := by
    apply h.mem_of_edge hp hedge
    simp only [List.mem_append, List.mem_cons] at hc ⊢
    tauto
  rw [List.idxOf_append_of_mem hin]
  rcases List.mem_append.1 hc with hold | hnew
  · rw [List.idxOf_append_of_mem hold]
    exact hforward p hp c hedge hold
  · obtain rfl := List.mem_singleton.1 hnew
    have hnot : c ∉ order := by
      intro hmem
      exact (List.nodup_append.1 h.nodup).2.2 c hmem c (by simp) rfl
    have hlt := List.idxOf_lt_length_of_mem hin
    rw [List.idxOf_append_of_notMem hnot]
    omega

/-- The loop ends with an empty queue: one round for every node is enough. -/
theorem kahn_running (hnodup : nodes.Nodup) (hinside : ∀ n ∈ nodes, ∀ c ∈ adj n, c ∈ nodes) :
    ∀ (fuel : Nat) {degree : N → Int} {queue order : List N},
      Running adj nodes degree queue order → Forward adj nodes order →
      nodes.length ≤ fuel + order.length →
      ∃ degree', Running adj nodes degree' [] (kahn adj fuel degree queue order) ∧
        Forward adj nodes (kahn adj fuel degree queue order) := by
  intro fuel
  induction fuel with
  | zero =>
    intro degree queue order h hforward hfuel
    refine ⟨degree, ?_, hforward⟩
    have hlength : (order ++ queue).length ≤ nodes.length :=
      (List.subperm_of_subset h.nodup h.subset).length_le
    have hnil : queue = [] := by
      rw [List.length_append] at hlength
      exact List.eq_nil_of_length_eq_zero (by omega)
    subst hnil
    exact h
  | succ fuel ih =>
    intro degree queue order h hforward hfuel
    cases queue with
    | nil => exact ⟨degree, h, hforward⟩
    | cons current queue =>
      apply ih (h.round hnodup hinside) (h.forward hforward)
      rw [List.length_append, List.length_singleton]
      omega

/-! ## Graphs without a cycle -/

/-- No node leads to itself. -/
def Acyclic (adj : N → List N) : Prop :=
  ∀ n, ¬ Relation.TransGen (fun p c => c ∈ adj p) n n

omit [DecidableEq N] in
/-- Ranks that grow along the edges rule out a cycle. -/
theorem acyclic_of_rank (rank : N → Nat) (h : ∀ p c, c ∈ adj p → rank p < rank c) :
    Acyclic adj := by
  intro n hcycle
  have hlt : ∀ a b, Relation.TransGen (fun p c => c ∈ adj p) a b → rank a < rank b := by
    intro a b hab
    induction hab with
    | single hedge => exact h a _ hedge
    | tail _ hedge ih => exact Nat.lt_trans ih (h _ _ hedge)
  exact Nat.lt_irrefl _ (hlt n n hcycle)

omit [DecidableEq N] in
/-- Among finitely many nodes of a graph without a cycle, one has no edge from the others. -/
theorem Acyclic.exists_source (hacyclic : Acyclic adj) {l : List N} (hne : l ≠ []) :
    ∃ n ∈ l, ∀ p ∈ l, n ∉ adj p := by
  let leads (a b : {n // n ∈ l}) : Prop := Relation.TransGen (fun p c => c ∈ adj p) a.1 b.1
  have : Finite {n // n ∈ l} := l.finite_toSet
  have : IsTrans {n // n ∈ l} leads := ⟨fun a b c hab hbc => Relation.TransGen.trans hab hbc⟩
  have : Std.Irrefl leads := ⟨fun a h => hacyclic a.1 h⟩
  have hwf : WellFounded leads := Finite.wellFounded_of_trans_of_irrefl leads
  obtain ⟨x, hx⟩ := List.exists_mem_of_ne_nil l hne
  obtain ⟨source, -, hmin⟩ := hwf.has_min Set.univ ⟨⟨x, hx⟩, trivial⟩
  refine ⟨source.1, source.2, ?_⟩
  intro p hp hedge
  exact hmin ⟨p, hp⟩ trivial (Relation.TransGen.single hedge)

/-- All nodes are in the order exactly on a graph without a cycle. -/
theorem Running.perm_iff {order : List N} (h : Running adj nodes degree [] order)
    (hforward : Forward adj nodes order) (hnodup : nodes.Nodup)
    (hinside : ∀ n ∈ nodes, ∀ c ∈ adj n, c ∈ nodes) (hsource : ∀ p, ∀ c ∈ adj p, p ∈ nodes) :
   order.Perm nodes ↔ Acyclic adj := by
  constructor
  · intro hperm
    apply acyclic_of_rank order.idxOf
    intro p c hedge
    have hp := hsource p c hedge
    exact hforward p hp c hedge (hperm.mem_iff.2 (hinside p hp c hedge))
  intro hacyclic
  -- A node that is left over would be a source of the nodes left over.
  have hall : ∀ n ∈ nodes, n ∈ order := by
    by_contra hnot
    simp only [not_forall] at hnot
    obtain ⟨x, hx, hxorder⟩ := hnot
    have hne : nodes.filter (· ∉ order) ≠ [] := by
      apply List.ne_nil_of_mem (a := x)
      simpa using ⟨hx, hxorder⟩
    obtain ⟨source, hsource, hfree⟩ := hacyclic.exists_source hne
    have hsource' : source ∈ nodes ∧ source ∉ order := by simpa using hsource
    have hzero : degree source = 0 := by
      rw [h.counts, inDegree]
      have : source ∉ (nodes.filter (· ∉ order)).flatMap adj := by
        rw [List.mem_flatMap]
        rintro ⟨p, hp, hedge⟩
        exact hfree p hp hedge
      rw [List.count_eq_zero.2 this]
      rfl
    have hin := (h.free source hsource'.1).1 hzero
    rw [List.append_nil] at hin
    exact hsource'.2 hin
  have hnodup' : order.Nodup := by
    have := h.nodup
    rwa [List.append_nil] at this
  rw [List.perm_ext_iff_of_nodup hnodup' hnodup]
  intro n
  refine ⟨?_, hall n⟩
  intro hn
  exact h.subset n (by simpa using hn)

end Lib.Kahn
