import Signoz.TraceDetail.WaterfallPage

/-!
# The waterfall and the order in which a trace is built

The lists of children come in whatever order the spans were met, so the traversal sorts them by
start time and name. Two siblings of the same start time and name are left in an order that depends
on the one they came in, and the pages of two requests differ.

`pagesSame_iff` says that this is the only way in which they can: the order of the children does
not show in any page of a trace if and only if no two siblings have the same start time and name.
-/

namespace Signoz.TraceDetail

open Lib.RoseTree Lib.RoseTree.Rose Lib.UnstableSort

/-- No two children of a span have the same start time and name. -/
def NoTies (t : SpanNode) : Prop := ∀ n ∈ t.subtrees, (n.children.map siblingKey).Nodup

instance (t : SpanNode) : Decidable (NoTies t) := by
  unfold NoTies
  infer_instance

/-- The map has the roots under their ids. -/
def HoldsRoots (roots : List SpanNode) (spanIdToSpanNodeMap : String → Option SpanNode) : Prop :=
  ∀ root ∈ roots, spanIdToSpanNodeMap (spanID root) = some root

/-- The ids of a page. -/
def pageIDs (S : Sorter) (uncollapsedSpans : List String) (selectedSpanID : String)
    (traceRoots : List SpanNode) (spanIdToSpanNodeMap : String → Option SpanNode)
    (isSelectedSpanIDUnCollapsed : Bool) : Option (List String) :=
  (getSelectedSpans S uncollapsedSpans selectedSpanID traceRoots spanIdToSpanNodeMap
    isSelectedSpanIDUnCollapsed).map fun result => result.1.map fun s => s.span.spanID

/-- Every request has the same page for any two orders of the children of the trace. -/
def PagesSame (S : Sorter) (roots : List SpanNode) : Prop :=
  ∀ roots₁ roots₂ map₁ map₂, List.Forall₂ Reordered roots roots₁ →
    List.Forall₂ Reordered roots roots₂ → HoldsRoots roots₁ map₁ → HoldsRoots roots₂ map₂ →
    ∀ uncollapsedSpans selectedSpanID isSelectedSpanIDUnCollapsed,
      pageIDs S uncollapsedSpans selectedSpanID roots₁ map₁ isSelectedSpanIDUnCollapsed =
        pageIDs S uncollapsedSpans selectedSpanID roots₂ map₂ isSelectedSpanIDUnCollapsed

variable {S : Sorter} {roots roots' : List SpanNode} {t u : SpanNode}

theorem rootNodes_of_holds {spanIdToSpanNodeMap : String → Option SpanNode}
    (h : HoldsRoots roots spanIdToSpanNodeMap) : rootNodes roots spanIdToSpanNodeMap = roots := by
  rw [rootNodes]
  refine (List.filterMap_congr h).trans ?_
  exact List.filterMap_some

theorem NoTies.node {span : Span} {children : List SpanNode} (h : NoTies (node span children)) :
    (children.map siblingKey).Nodup ∧ ∀ c ∈ children, NoTies c := by
  refine ⟨h _ (self_mem_subtrees _), fun c hc n hn => h n ?_⟩
  exact mem_subtrees_of_mem_children hc hn

theorem map_sortSpans_of_forall₂ {children children' : List SpanNode}
    (h : List.Forall₂ Reordered children children')
    (hsort : ∀ c ∈ children, ∀ c', Reordered c c' → sortSpans S c' = sortSpans S c) :
    children'.map (sortSpans S) = children.map (sortSpans S) := by
  induction h with
  | nil => rfl
  | cons hc _ ih =>
    rw [List.map_cons, List.map_cons, hsort _ List.mem_cons_self _ hc,
      ih fun c hc => hsort c (List.mem_cons_of_mem _ hc)]

/-! ## Without ties -/

/-- Without ties the sorted tree does not depend on the order of the children. -/
theorem sortSpans_of_reordered (hties : NoTies t) (h : Reordered t u) :
    sortSpans S u = sortSpans S t := by
  induction t using Rose.induction generalizing u with
  | node span children ih =>
    cases u with
    | node span' children' =>
      obtain ⟨hlabel, between, hbetween, hperm⟩ := reordered_node.1 h
      obtain ⟨hkeys, hbelow⟩ := hties.node
      rw [label_node] at hlabel
      subst hlabel
      have hmap : between.map (sortSpans S) = children.map (sortSpans S) :=
        map_sortSpans_of_forall₂ hbetween fun c hc c' hcc' => ih c hc (hbelow c hc) hcc'
      rw [sortSpans, reorder_node, reorder_node]
      congr 1
      apply Eq.symm
      apply sort_eq_of_perm
      · exact (List.Perm.of_eq hmap.symm).trans (hperm.map _)
      · rw [List.map_map]
        have : siblingKey ∘ reorder (sortChildren S) = siblingKey :=
          funext fun c => siblingKey_sortSpans S c
        rwa [this]

theorem forestPlaces_of_map_eq (h : roots'.map (sortSpans S) = roots.map (sortSpans S)) :
    forestPlaces S roots' = forestPlaces S roots := by
  have hflat : ∀ ts : List SpanNode, forestPlaces S ts =
      (ts.map (sortSpans S)).flatMap (places [] false) := fun ts => by
    rw [List.flatMap_map]
    rfl
  rw [hflat, hflat, h]

/-- The page, in terms of the places. -/
theorem pageIDs_eq {spanIdToSpanNodeMap : String → Option SpanNode} (uncollapsedSpans : List String)
    (selectedSpanID : String) (isSelectedSpanIDUnCollapsed : Bool) (hids : DistinctIDs roots)
    (hmap : HoldsRoots roots spanIdToSpanNodeMap) :
    pageIDs S uncollapsedSpans selectedSpanID roots spanIdToSpanNodeMap
        isSelectedSpanIDUnCollapsed =
      (page (visibleSpans S (requestOpts uncollapsedSpans selectedSpanID
        isSelectedSpanIDUnCollapsed) roots) selectedSpanID).map fun spans =>
          spans.map fun s => s.span.spanID := by
  have hopts : requestOpts uncollapsedSpans selectedSpanID isSelectedSpanIDUnCollapsed = _ := rfl
  obtain ⟨_, _, _, hresult, _, _⟩ :=
    getSelectedSpans_eq S uncollapsedSpans hopts (rootNodes_of_holds hmap).symm hids
  rw [pageIDs, hresult, Option.map_map]
  rfl

theorem distinctIDs_of_reordered (hids : DistinctIDs roots)
    (h : List.Forall₂ Reordered roots roots') : DistinctIDs roots' := by
  have hperm : (roots.flatMap fun t => t.subtrees.map spanID).Perm
      (roots'.flatMap fun t => t.subtrees.map spanID) := by
    apply flatMap_perm_of_forall₂ h
    intro t _ t' ht
    rw [← map_placeID_places, ← map_placeID_places]
    have hstands := (ht.perm_stands [] false false).map fun q => q.1.spanID
    rwa [List.map_map, List.map_map] at hstands
  rw [DistinctIDs, subtreesOf_eq, List.map_flatMap] at hids ⊢
  exact hperm.nodup_iff.1 hids

theorem pagesSame_of_noTies (hids : DistinctIDs roots) (hties : ∀ t ∈ roots, NoTies t) :
    PagesSame S roots := by
  intro roots₁ roots₂ map₁ map₂ h₁ h₂ hmap₁ hmap₂ uncollapsedSpans selectedSpanID flag
  have hplaces : ∀ roots', List.Forall₂ Reordered roots roots' →
      forestPlaces S roots' = forestPlaces S roots := by
    intro roots' h
    apply forestPlaces_of_map_eq
    exact map_sortSpans_of_forall₂ h fun t ht t' htt' => sortSpans_of_reordered (hties t ht) htt'
  rw [pageIDs_eq _ _ _ (distinctIDs_of_reordered hids h₁) hmap₁,
    pageIDs_eq _ _ _ (distinctIDs_of_reordered hids h₂) hmap₂, visibleSpans, visibleSpans,
    hplaces roots₁ h₁, hplaces roots₂ h₂]

/-! ## With ties -/

/-- Two siblings that stand the other way round in the second list, next to each other but for what
is below the first of them. -/
def Exchanged (ps ps' : List (Place Span)) : Prop :=
  ∃ x y x' y', placeID x' = placeID x ∧ placeID y' = placeID y ∧ y.above = x.above ∧
    y'.above = x'.above ∧ [x, y].Sublist ps ∧
    ∃ before below after, ps' = before ++ y' :: below ++ x' :: after ∧
      ∀ d ∈ below, placeID y' ∈ idsOf d.above

theorem Exchanged.append {ps ps' : List (Place Span)} (h : Exchanged ps ps')
    (before after before' after' : List (Place Span)) :
    Exchanged (before ++ ps ++ after) (before' ++ ps' ++ after') := by
  obtain ⟨x, y, x', y', hx, hy, hxy, hxy', hsublist, b, d, a, hps', hbelow⟩ := h
  refine ⟨x, y, x', y', hx, hy, hxy, hxy', ?_, before' ++ b, d, a ++ after', ?_, hbelow⟩
  · exact (hsublist.trans (List.sublist_append_right _ _)).trans (List.sublist_append_left _ _)
  · rw [hps']
    simp only [List.append_assoc, List.cons_append]

/-- Two neighbours that trade places, whatever stands before and behind them. -/
theorem exchanged_neighbours (above : List Span) (before after before' after' : List SpanNode)
    (c d : SpanNode) :
    Exchanged (placesOf above (before ++ c :: d :: after))
      (placesOf above (before' ++ d :: c :: after')) := by
  obtain ⟨ps, hps⟩ := placesOf_append above before (c :: d :: after)
  obtain ⟨ps', hps'⟩ := placesOf_append above before' (d :: c :: after')
  rw [hps, hps']
  have hpair : Exchanged (placesOf above (c :: d :: after))
      (placesOf above (d :: c :: after')) := by
    refine ⟨⟨above, c, true⟩, ⟨above, d, !after.isEmpty⟩, ⟨above, c, !after'.isEmpty⟩,
      ⟨above, d, true⟩, rfl, rfl, rfl, rfl, ?_, [], placesOf (d.label :: above) d.children,
      placesOf (c.label :: above) c.children ++ placesOf above after', ?_, ?_⟩
    · rw [placesOf, placesOf, places_eq_cons above _ c, places_eq_cons above _ d, List.cons_append]
      apply List.Sublist.cons_cons
      apply (List.singleton_sublist.2 ?_).trans (List.sublist_append_right _ _)
      exact List.mem_cons_self
    · rw [placesOf, placesOf, places_eq_cons above _ c, places_eq_cons above _ d]
      rfl
    · intro p hp
      obtain ⟨e, _, _, he, _⟩ := mem_placesOf hp
      exact List.mem_map_of_mem ((suffix_above he).subset List.mem_cons_self)
  have := hpair.append ps [] ps' []
  rwa [List.append_nil, List.append_nil] at this

/-- The children of a span are in other orders, at the span or below it. -/
theorem exchanged_node {children children' : List SpanNode}
    (h : ∀ above, Exchanged (placesOf above ((sortChildren S children).map (sortSpans S)))
      (placesOf above ((sortChildren S children').map (sortSpans S))))
    (span : Span) (above : List Span) (followed followed' : Bool) :
    Exchanged (places above followed (sortSpans S (node span children)))
      (places above followed' (sortSpans S (node span children'))) := by
  rw [sortSpans_node, sortSpans_node, places, places]
  have := (h (span :: above)).append
    [⟨above, node span ((sortChildren S children).map (sortSpans S)), followed⟩] []
    [⟨above, node span ((sortChildren S children').map (sortSpans S)), followed'⟩] []
  rwa [List.append_nil, List.append_nil] at this

section
open Classical

/-- Two siblings of the same start time and name trade places. -/
theorem exists_exchanged_of_tie {children : List SpanNode} (hnodup : children.Nodup)
    (hkeys : ¬(children.map siblingKey).Nodup) (span : Span) :
    ∃ children', Reordered (node span children) (node span children') ∧
      ∀ above, Exchanged (placesOf above ((sortChildren S children).map (sortSpans S)))
        (placesOf above ((sortChildren S children').map (sortSpans S))) := by
  have hperm : (sortChildren S children).Perm children := sortChildren_perm children
  have hinOrder : (sortChildren S children).Pairwise fun a b => siblingKey a ≤ siblingKey b :=
    pairwise_byKey S siblingKey children
  have htie : ¬((sortChildren S children).map siblingKey).Nodup := fun h =>
    hkeys ((hperm.map siblingKey).nodup_iff.1 h)
  obtain ⟨before, c, d, after, hsorted, hkey⟩ := exists_equivalent_neighbours hinOrder htie
  have hc : c ∈ children := hperm.mem_iff.1 (by simp [hsorted])
  have hd : d ∈ children := hperm.mem_iff.1 (by simp [hsorted])
  refine ⟨children.map (Equiv.swap c d), ?_, fun above => ?_⟩
  · apply reordered_of_map id fun c _ => Reordered.refl c
    rw [List.map_id]
    exact (perm_map_swap hnodup hc hd).symm
  · have hswapped : sortChildren S (children.map (Equiv.swap c d)) =
        (sortChildren S children).map (Equiv.swap c d) := sort_map_swap S hkey
    rw [hswapped, hsorted]
    simp only [List.map_append, List.map_cons, Equiv.swap_apply_left, Equiv.swap_apply_right]
    exact exchanged_neighbours above _ _ _ _ _ _

/-- A child is replaced by one in which two siblings are exchanged. -/
theorem exists_exchanged_of_child {children : List SpanNode} {c c' : SpanNode}
    (hc : c ∈ children) (hcc' : Reordered c c')
    (h : ∀ above followed followed', Exchanged (places above followed (sortSpans S c))
      (places above followed' (sortSpans S c'))) (span : Span) :
    ∃ children', Reordered (node span children) (node span children') ∧
      ∀ above, Exchanged (placesOf above ((sortChildren S children).map (sortSpans S)))
        (placesOf above ((sortChildren S children').map (sortSpans S))) := by
  let replaced : SpanNode → SpanNode := fun d => if d = c then c' else d
  have hself : replaced c = c' := if_pos rfl
  have hreordered : ∀ d, Reordered d (replaced d) := by
    intro d
    simp only [replaced]
    split_ifs with hdc
    · exact hdc ▸ hcc'
    · exact Reordered.refl d
  refine ⟨children.map replaced, reordered_of_map replaced (fun d _ => hreordered d)
    (List.Perm.refl _), fun above => ?_⟩
  have hsorted : sortChildren S (children.map replaced) =
      (sortChildren S children).map replaced := by
    apply byKey_map
    intro d _
    rw [siblingKey, siblingKey, (hreordered d).label_eq]
  have hmem : c ∈ sortChildren S children := (sortChildren_perm children).mem_iff.2 hc
  obtain ⟨before, after, hsplit⟩ := List.append_of_mem hmem
  rw [hsorted, hsplit]
  simp only [List.map_append, List.map_cons, hself]
  obtain ⟨ps, followed, qs, hplaces⟩ := placesOf_split above (before.map (sortSpans S))
    (after.map (sortSpans S)) (sortSpans S c)
  obtain ⟨ps', followed', qs', hplaces'⟩ := placesOf_split above
    ((before.map replaced).map (sortSpans S)) ((after.map replaced).map (sortSpans S))
    (sortSpans S c')
  rw [hplaces, hplaces']
  exact (h above followed followed').append ps qs ps' qs'

/-- With a tie the children can be put in an order in which two siblings are exchanged. -/
theorem exists_exchanged (hids : (t.subtrees.map spanID).Nodup) (hties : ¬NoTies t) :
    ∃ t', Reordered t t' ∧ ∀ above followed followed',
      Exchanged (places above followed (sortSpans S t))
        (places above followed' (sortSpans S t')) := by
  induction t using Rose.induction with
  | node span children ih =>
    rw [subtrees, List.map_cons, List.nodup_cons] at hids
    by_cases hkeys : (children.map siblingKey).Nodup
    · -- the tie is further down
      have hbelow : ∃ c ∈ children, ¬NoTies c := by
        by_contra hnone
        apply hties
        intro n hn
        rw [subtrees, subtreesOf_eq, List.mem_cons] at hn
        rcases hn with rfl | hn
        · exact hkeys
        · obtain ⟨c, hc, hn⟩ := List.mem_flatMap.1 hn
          have hcties : NoTies c := by
            by_contra hcties
            exact hnone ⟨c, hc, hcties⟩
          exact hcties n hn
      obtain ⟨c, hc, hcties⟩ := hbelow
      have hsubtrees := hids.2
      rw [subtreesOf_eq, List.map_flatMap, List.nodup_flatMap] at hsubtrees
      obtain ⟨c', hcc', hexchanged⟩ := ih c hc (hsubtrees.1 c hc) hcties
      obtain ⟨children', hreordered, hplaces⟩ :=
        exists_exchanged_of_child hc hcc' hexchanged span
      exact ⟨_, hreordered, exchanged_node hplaces span⟩
    · have hnodup : children.Nodup :=
        (sublist_subtreesOf children).nodup (List.Nodup.of_map _ hids.2)
      obtain ⟨children', hreordered, hplaces⟩ := exists_exchanged_of_tie hnodup hkeys span
      exact ⟨_, hreordered, exchanged_node hplaces span⟩

end

/-- A list of different elements does not have two of them in both orders. -/
theorem not_both_orders {α : Type} {l : List α} (hnodup : l.Nodup) {a b : α}
    (hab : [a, b].Sublist l) (hba : [b, a].Sublist l) : False := by
  induction l with
  | nil => cases hab
  | cons c l ih =>
    obtain ⟨hnot, hrest⟩ := List.nodup_cons.1 hnodup
    rcases List.sublist_cons_iff.1 hab with hab' | ⟨_, heq, hb⟩
    · rcases List.sublist_cons_iff.1 hba with hba' | ⟨_, heq, _⟩
      · exact ih hrest hab' hba'
      · -- the second element comes first
        obtain ⟨rfl, _⟩ := List.cons.inj heq
        exact hnot (hab'.subset (List.mem_cons_of_mem _ List.mem_cons_self))
    · obtain ⟨rfl, rfl⟩ := List.cons.inj heq
      rcases List.sublist_cons_iff.1 hba with hba' | ⟨_, heq, _⟩
      · exact hnot (hba'.subset (List.mem_cons_of_mem _ List.mem_cons_self))
      · obtain ⟨rfl, _⟩ := List.cons.inj heq
        exact hnot (List.singleton_sublist.1 hb)

/-- The spans around a place of the window. -/
theorem slice_infix {α : Type} {before middle after window : List α} {lo hi : Int}
    (h : slice (before ++ middle ++ after) lo hi = some window) (hlo : lo ≤ before.length)
    (hhi : ((before ++ middle).length : Int) ≤ hi) :
    ∃ before' after', window = before' ++ middle ++ after' := by
  rw [slice] at h
  split_ifs at h with hrange
  obtain ⟨m, rfl⟩ := Int.eq_ofNat_of_zero_le hrange.1
  obtain ⟨n, rfl⟩ := Int.eq_ofNat_of_zero_le (hrange.1.trans hrange.2.1)
  refine ⟨before.drop m, after.take (n - (before ++ middle).length), ?_⟩
  have hm : m ≤ before.length := by omega
  have hn : (before ++ middle).length ≤ n := by omega
  rw [← Option.some.inj h, Int.toNat_natCast, Int.toNat_natCast, List.take_append,
    List.take_of_length_le hn, List.append_assoc, List.drop_append_of_le_length hm,
    List.append_assoc]

/-- The span before the selected one is in the window with it. -/
theorem page_before_selected {before after spans : List ListedSpan} {y x : ListedSpan}
    {selected : String} (hpage : page (before ++ [y, x] ++ after) selected = some spans)
    (hx : x.span.spanID = selected) (hbefore : ∀ s ∈ before, s.span.spanID ≠ selected)
    (hy : y.span.spanID ≠ selected) :
    ∃ before' after', spans = before' ++ [y, x] ++ after' := by
  have hfind : findIndexForSelectedSpanFromPreOrder (before ++ [y, x] ++ after) selected =
      (before.length + 1 : Nat) := by
    have hnone : before.findIdx? (fun s => s.span.spanID = selected) = none := by
      simpa using hbefore
    rw [findIndexForSelectedSpanFromPreOrder, List.append_assoc, List.findIdx?_append, hnone]
    simp [hx, hy, List.findIdx?_cons, Nat.add_comm]
  have hindex : selectedIndex (before ++ [y, x] ++ after) selected = before.length + 1 := by
    rw [selectedIndex, hfind, if_neg]
    · rfl
    · omega
  rw [page, hindex] at hpage
  have hbounds : (windowBounds (before.length + 1) (before ++ [y, x] ++ after).length).1 ≤
      before.length ∧
      (before.length + 1 : Int) <
        (windowBounds (before.length + 1) (before ++ [y, x] ++ after).length).2 := by
    simp only [windowBounds, spanLimitPerRequestForWaterfall, List.length_append,
      List.length_cons, List.length_nil]
    split_ifs <;> omega
  refine slice_infix hpage hbounds.1 ?_
  rw [List.length_append, List.length_cons, List.length_cons, List.length_nil]
  omega

/-- A map that has the roots under their ids. -/
theorem exists_holdsRoots (hids : DistinctIDs roots) : ∃ map, HoldsRoots roots map := by
  refine ⟨fun id => roots.find? fun root => spanID root = id, fun root hroot => ?_⟩
  cases hfind : roots.find? fun other => decide (spanID other = spanID root) with
  | none =>
    have := List.find?_eq_none.1 hfind root hroot
    exact absurd rfl (of_decide_eq_false (Bool.eq_false_iff.2 this))
  | some other =>
    have hid : spanID other = spanID root := by simpa using List.find?_some hfind
    have hother := List.mem_of_find?_eq_some hfind
    have hsub := (sublist_subtreesOf roots).subset
    have heq : other = root := List.inj_on_of_nodup_map hids (hsub hother) (hsub hroot) hid
    rw [← heq, hid] at *
    exact hfind

theorem ids_visibleSpans (opts : TraverseOpts) :
    (visibleSpans S opts roots).map (fun s => s.span.spanID) =
      ((forestPlaces S roots).filter fun p =>
        isVisible (forestPlaces S roots) opts p.above).map placeID := by
  rw [visibleSpans, List.map_map]
  rfl

/-- Every span above a visible one is uncollapsed. -/
theorem isUncollapsed_of_isVisible {all : List (Place Span)} {opts : TraverseOpts}
    {above : List Span} (h : isVisible all opts above) {span : Span} (hspan : span ∈ above) :
    ∃ lower, isUncollapsed all opts (span :: lower) := by
  induction above with
  | nil => cases hspan
  | cons first above ih =>
    rw [isVisible, Bool.and_eq_true] at h
    rcases List.mem_cons.1 hspan with rfl | hspan
    · exact ⟨above, h.2⟩
    · exact ih h.1 hspan

/-- When nothing is uncollapsed but the path to a span, nothing is visible below its siblings. -/
theorem not_isVisible_below (hids : DistinctIDs roots) {x y d : Place Span}
    (hx : x ∈ forestPlaces S roots) (hy : y ∈ forestPlaces S roots) (habove : y.above = x.above)
    (hd : placeID y ∈ idsOf d.above) :
    isVisible (forestPlaces S roots) (requestOpts [] (placeID x) false) d.above = false := by
  rw [Bool.eq_false_iff]
  intro hvisible
  obtain ⟨span, hspan, hid⟩ := List.mem_map.1 hd
  obtain ⟨lower, huncollapsed⟩ := isUncollapsed_of_isVisible hvisible hspan
  rw [isUncollapsed_iff, lt_autoExpandDepth_iff] at huncollapsed
  rcases huncollapsed with hmem | ⟨p, hp, hpid, hmem⟩ | ⟨hflag, _⟩
  · cases hmem
  · rw [place_eq hids hp hx hpid, ← habove, hid] at hmem
    exact placeID_not_mem_above hids hy hmem
  · cases hflag

theorem filter_neighbours {α : Type} {p : α → Bool} {before between after : List α} {x y : α}
    (hy : p y) (hx : p x) (hbetween : between.filter p = []) :
    (before ++ y :: between ++ x :: after).filter p =
      before.filter p ++ [y, x] ++ after.filter p := by
  simp [hy, hx, hbetween]

/-- When nothing is uncollapsed but the path to a span, the page has the sibling before it right
before it. -/
theorem page_of_neighbours (hids : DistinctIDs roots) {x y : Place Span}
    {before below after : List (Place Span)}
    (hplaces : forestPlaces S roots = before ++ y :: below ++ x :: after)
    (habove : y.above = x.above) (hbelow : ∀ d ∈ below, placeID y ∈ idsOf d.above) :
    ∃ spans, page (visibleSpans S (requestOpts [] (placeID x) false) roots) (placeID x) =
      some spans ∧ ∃ before' after', spans = before' ++ [listed y, listed x] ++ after' := by
  have hmemx : x ∈ forestPlaces S roots := by simp [hplaces]
  have hmemy : y ∈ forestPlaces S roots := by simp [hplaces]
  have hvisible : isVisible (forestPlaces S roots) (requestOpts [] (placeID x) false) x.above :=
    isVisible_selected hmemx rfl List.suffix_rfl
  have hhidden : below.filter (fun p => isVisible (forestPlaces S roots)
      (requestOpts [] (placeID x) false) p.above) = [] := by
    rw [List.filter_eq_nil_iff]
    intro d hd
    rw [not_isVisible_below hids hmemx hmemy habove (hbelow d hd)]
    exact Bool.false_ne_true
  obtain ⟨first, last, hsub, hfilter⟩ : ∃ first last, first ⊆ before ∧
      (forestPlaces S roots).filter (fun p => isVisible (forestPlaces S roots)
        (requestOpts [] (placeID x) false) p.above) = first ++ [y, x] ++ last :=
    ⟨_, _, List.filter_subset_self before, (congrArg _ hplaces).trans
      (filter_neighbours (habove ▸ hvisible) hvisible hhidden)⟩
  have hlisted : visibleSpans S (requestOpts [] (placeID x) false) roots =
      first.map listed ++ [listed y, listed x] ++ last.map listed := by
    rw [visibleSpans, hfilter, List.map_append, List.map_append]
    rfl
  obtain ⟨_, spans, _, hpage, _, _, _⟩ :=
    page_spec (visibleSpans S (requestOpts [] (placeID x) false) roots) (placeID x)
  refine ⟨spans, hpage, ?_⟩
  rw [hlisted] at hpage
  -- the selected span is not found earlier
  have hnodup := nodup_forestPlaces (S := S) hids
  rw [hplaces, List.map_append, List.nodup_append] at hnodup
  have hother : ∀ p, p ∈ before ++ y :: below → placeID p ≠ placeID x := fun p hp =>
    hnodup.2.2 _ (List.mem_map_of_mem hp) _ List.mem_cons_self
  refine page_before_selected hpage rfl ?_ ?_
  · intro s hs
    obtain ⟨p, hp, rfl⟩ := List.mem_map.1 hs
    exact hother p (List.mem_append_left _ (hsub hp))
  · exact hother y (List.mem_append_right _ List.mem_cons_self)

/-- The page around the first of two exchanged siblings has the second one before it only where it
comes first. -/
theorem pages_differ (hids : DistinctIDs roots) (hids' : DistinctIDs roots')
    (hforest : Exchanged (forestPlaces S roots) (forestPlaces S roots'))
    {map₁ map₂ : String → Option SpanNode} (hmap₁ : HoldsRoots roots map₁)
    (hmap₂ : HoldsRoots roots' map₂) :
    ∃ selected, pageIDs S [] selected roots map₁ false ≠
      pageIDs S [] selected roots' map₂ false := by
  obtain ⟨x, y, x', y', hx, hy, hxy, hxy', hsublist, before, below, after, hplaces, hbelow⟩ :=
    hforest
  refine ⟨placeID x, fun hpages => ?_⟩
  rw [pageIDs_eq _ _ _ hids hmap₁, pageIDs_eq _ _ _ hids' hmap₂] at hpages
  obtain ⟨spans', hpage', lead, rest, rfl⟩ := page_of_neighbours hids' hplaces hxy' hbelow
  obtain ⟨before₁, spans, after₁, hpage, hsplit, _, _⟩ :=
    page_spec (visibleSpans S (requestOpts [] (placeID x) false) roots) (placeID x)
  rw [hx] at hpage'
  rw [hpage, hpage', Option.map_some, Option.map_some, Option.some.injEq] at hpages
  have hmemx : x ∈ forestPlaces S roots := hsublist.subset List.mem_cons_self
  have hvisible : isVisible (forestPlaces S roots) (requestOpts [] (placeID x) false) x.above :=
    isVisible_selected hmemx rfl List.suffix_rfl
  -- the list of the first trace would have them in both orders
  apply not_both_orders (a := placeID x) (b := placeID y)
    (l := (visibleSpans S (requestOpts [] (placeID x) false) roots).map fun s => s.span.spanID)
  · rw [ids_visibleSpans]
    exact (nodup_forestPlaces hids).sublist (List.filter_sublist.map placeID)
  · rw [ids_visibleSpans]
    have := (hsublist.filter fun p => isVisible (forestPlaces S roots)
      (requestOpts [] (placeID x) false) p.above).map placeID
    have hboth : [x, y].filter (fun p => isVisible (forestPlaces S roots)
        (requestOpts [] (placeID x) false) p.above) = [x, y] := by
      simp [hxy, hvisible]
    rwa [hboth] at this
  · rw [hsplit, List.map_append, List.map_append, hpages, List.map_append, List.map_append,
      ← hx, ← hy]
    apply List.Sublist.trans _ (List.sublist_append_left _ _)
    apply List.Sublist.trans _ (List.sublist_append_right _ _)
    apply List.Sublist.trans _ (List.sublist_append_left _ _)
    exact List.sublist_append_right _ _

/-- A tie shows in some page. -/
theorem noTies_of_pagesSame (hids : DistinctIDs roots) (hsame : PagesSame S roots) :
    ∀ t ∈ roots, NoTies t := by
  intro t ht
  by_contra hties
  obtain ⟨t', htt', hexchanged⟩ := exists_exchanged (S := S) (hids.tree ht) hties
  obtain ⟨before, after, hroots⟩ := List.append_of_mem ht
  have hrefl : ∀ ts : List SpanNode, List.Forall₂ Reordered ts ts := fun ts =>
    List.forall₂_same.2 fun u _ => Reordered.refl u
  have hreordered : List.Forall₂ Reordered roots (before ++ t' :: after) := by
    rw [hroots]
    exact List.rel_append (hrefl before) (List.Forall₂.cons htt' (hrefl after))
  have hids' := distinctIDs_of_reordered hids hreordered
  have hplaces : ∀ u, forestPlaces S (before ++ u :: after) =
      forestPlaces S before ++ places [] false (sortSpans S u) ++ forestPlaces S after := by
    intro u
    rw [forestPlaces_append, List.append_assoc]
    rfl
  have hforest : Exchanged (forestPlaces S roots) (forestPlaces S (before ++ t' :: after)) := by
    rw [hroots, hplaces, hplaces]
    exact (hexchanged [] false false).append _ _ _ _
  obtain ⟨map₁, hmap₁⟩ := exists_holdsRoots hids
  obtain ⟨map₂, hmap₂⟩ := exists_holdsRoots hids'
  obtain ⟨selected, hdiffer⟩ := pages_differ hids hids' hforest hmap₁ hmap₂
  exact hdiffer (hsame _ _ _ _ (hrefl roots) hreordered hmap₁ hmap₂ [] selected false)

/-- The order of the children does not show in any page if and only if no two siblings have the
same start time and name. -/
theorem pagesSame_iff (S : Sorter) (roots : List SpanNode) (hids : DistinctIDs roots) :
    PagesSame S roots ↔ ∀ t ∈ roots, NoTies t :=
  ⟨noTies_of_pagesSame hids, pagesSame_of_noTies hids⟩

/-- A span with two children, one after the other. -/
def orderedTrace : SpanNode :=
  node ⟨"a", "front", "GET /", 0⟩
    [node ⟨"c", "cart", "read", 2⟩ [], node ⟨"b", "cart", "read", 1⟩ []]

theorem orderedTrace_pagesSame : PagesSame stable [orderedTrace] :=
  (pagesSame_iff stable [orderedTrace] (by decide)).2 (by decide)

/-- The two children of `forkedTrace` in the other order. -/
def forkedTrace' : SpanNode :=
  node ⟨"a", "front", "GET /", 0⟩
    [node ⟨"b", "cart", "read", 1⟩ [], node ⟨"c", "cart", "read", 1⟩ []]

theorem forkedTrace_pages_differ : ¬PagesSame stable [forkedTrace] := by
  intro hsame
  have hreordered : Reordered forkedTrace forkedTrace' :=
    reordered_of_map id (fun c _ => Reordered.refl c) (List.Perm.swap _ _ _)
  have hpages := hsame [forkedTrace] [forkedTrace'] (fun _ => some forkedTrace)
    (fun _ => some forkedTrace') (List.Forall₂.cons (Reordered.refl _) List.Forall₂.nil)
    (List.Forall₂.cons hreordered List.Forall₂.nil) (by simp [HoldsRoots]) (by simp [HoldsRoots])
    ["a"] "" false
  exact absurd hpages (by decide)

end Signoz.TraceDetail
