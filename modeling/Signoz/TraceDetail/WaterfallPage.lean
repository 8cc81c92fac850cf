import Signoz.TraceDetail.Waterfall
import Mathlib.Data.List.Pairwise

/-!
# The page of the waterfall

What is listed is stated over the places of the sorted trees alone: a span is visible when every
span above it is uncollapsed, stands above the selected span, or is the selected span or within the
automatic depth below it (`isVisible`). The loop over the roots keeps its own map of uncollapsed
spans, which grows from root to root; the spans it adds are uncollapsed in this sense already
(`SelectedFrom`), so that they change nothing when they are sent back.

`getSelectedSpans_page` says what a request returns and what the next request with the returned
uncollapsed spans returns.
-/

namespace Signoz.TraceDetail

open Lib.RoseTree Lib.RoseTree.Rose Lib.UnstableSort

/-! ## Visible spans -/

def placeID (p : Place Span) : String := spanID p.node

/-- The ids of the spans. -/
def idsOf (spans : List Span) : List String := spans.map Span.spanID

/-- The places of the sorted trees. -/
def forestPlaces (S : Sorter) (roots : List SpanNode) : List (Place Span) :=
  roots.flatMap fun root => places [] false (sortSpans S root)

/-- The span of the id stands above the selected span. -/
def isAboveSelected (all : List (Place Span)) (selectedSpanID id : String) : Bool :=
  all.any fun p => placeID p = selectedSpanID && id ∈ idsOf p.above

/-- The first of the spans, with the spans above it, shows its children. -/
def isUncollapsed (all : List (Place Span)) (opts : TraverseOpts) : List Span → Bool
  | [] => true
  | span :: above => span.spanID ∈ opts.uncollapsedSpans ||
      isAboveSelected all opts.selectedSpanID span.spanID ||
      (opts.isSelectedSpanUncollapsed &&
        opts.selectedSpanID ∈ idsOf ((span :: above).take maxDepthForSelectedSpanChildren))

/-- A span under these spans is visible. -/
def isVisible (all : List (Place Span)) (opts : TraverseOpts) : List Span → Bool
  | [] => true
  | span :: above => isVisible all opts above && isUncollapsed all opts (span :: above)

/-- The pre-order of the visible spans. -/
def visibleSpans (S : Sorter) (opts : TraverseOpts) (roots : List SpanNode) : List ListedSpan :=
  ((forestPlaces S roots).filter fun p =>
    isVisible (forestPlaces S roots) opts p.above).map listed

/-- The automatic depth reaches as far as the selected span is among the nearest spans above. -/
theorem lt_autoExpandDepth_iff (opts : TraverseOpts) (above : List Span) (k : Nat) :
    k < autoExpandDepth opts above ↔ opts.isSelectedSpanUncollapsed ∧
      opts.selectedSpanID ∈ idsOf (above.take (maxDepthForSelectedSpanChildren - k)) := by
  induction above generalizing k with
  | nil => simp [autoExpandDepth, idsOf]
  | cons span above ih =>
    rw [autoExpandDepth, remainingAutoExpandDepth]
    rcases Nat.lt_or_ge k maxDepthForSelectedSpanChildren with hk | hk
    · obtain ⟨m, hm⟩ : ∃ m, maxDepthForSelectedSpanChildren - k = m + 1 :=
        ⟨_, (Nat.succ_pred_eq_of_pos (Nat.sub_pos_of_lt hk)).symm⟩
      have hrest := ih (k + 1)
      rw [Nat.sub_add_eq, hm, Nat.add_sub_cancel] at hrest
      rw [hm, List.take_succ_cons, idsOf, List.map_cons, List.mem_cons]
      split_ifs with hself
      · simp [hk, hself.1, hself.2]
      · rw [← idsOf, Nat.lt_sub_iff_add_lt, hrest]
        constructor
        · exact fun h => ⟨h.1, Or.inr h.2⟩
        · rintro ⟨hflag, heq | hmem⟩
          · exact absurd ⟨heq.symm, hflag⟩ hself
          · exact ⟨hflag, hmem⟩
    · rw [Nat.sub_eq_zero_of_le hk]
      simp only [List.take_zero, idsOf, List.map_nil, List.not_mem_nil, and_false, iff_false]
      split_ifs with hself
      · omega
      · have := (ih k).not
        rw [Nat.sub_eq_zero_of_le hk] at this
        simp only [List.take_zero, idsOf, List.map_nil, List.not_mem_nil, and_false,
          not_false_eq_true, iff_true] at this
        omega

theorem autoExpandDepth_congr (opts : TraverseOpts) (uncollapsed : List String)
    (above : List Span) :
    autoExpandDepth { opts with uncollapsedSpans := uncollapsed } above =
      autoExpandDepth opts above := by
  induction above with
  | nil => rfl
  | cons span above ih =>
    rw [autoExpandDepth, autoExpandDepth, ih]
    rfl

theorem isUncollapsed_iff (all : List (Place Span)) (opts : TraverseOpts) (span : Span)
    (above : List Span) : isUncollapsed all opts (span :: above) ↔
      span.spanID ∈ opts.uncollapsedSpans ∨
      (∃ p ∈ all, placeID p = opts.selectedSpanID ∧ span.spanID ∈ idsOf p.above) ∨
      0 < autoExpandDepth opts (span :: above) := by
  rw [lt_autoExpandDepth_iff, isUncollapsed, isAboveSelected]
  simp only [Bool.or_eq_true, Bool.and_eq_true, decide_eq_true_eq, List.any_eq_true, or_assoc,
    Nat.sub_zero]

/-! ## Spans of different ids -/

/-- The spans below the roots, the roots included, have different ids. -/
def DistinctIDs (roots : List SpanNode) : Prop := ((subtreesOf roots).map spanID).Nodup

instance (roots : List SpanNode) : Decidable (DistinctIDs roots) := by
  unfold DistinctIDs
  infer_instance

section Places

variable {S : Sorter} {roots : List SpanNode}

theorem sortChildren_perm (children : List SpanNode) : (sortChildren S children).Perm children :=
  byKey_perm S siblingKey children

theorem reordered_sortSpans (t : SpanNode) : Reordered t (sortSpans S t) :=
  reordered_reorder sortChildren_perm t

/-- Sorting leaves every span under the spans it was under. -/
theorem perm_stands_sortSpans (t : SpanNode) :
    ((places [] false t).map Place.stand).Perm
      ((places [] false (sortSpans S t)).map Place.stand) :=
  (reordered_sortSpans t).perm_stands [] false false

theorem map_placeID_places (t : SpanNode) :
    (places [] false t).map placeID = t.subtrees.map spanID := by
  rw [← map_node_places [] false t, List.map_map]
  rfl

theorem perm_ids_sortSpans (t : SpanNode) :
    ((places [] false (sortSpans S t)).map placeID).Perm (t.subtrees.map spanID) := by
  have hperm := ((perm_stands_sortSpans (S := S) t).map fun q => q.1.spanID).symm
  rw [List.map_map, List.map_map] at hperm
  exact hperm.trans (List.Perm.of_eq (map_placeID_places t))

theorem perm_ids_forestPlaces :
    ((forestPlaces S roots).map placeID).Perm ((subtreesOf roots).map spanID) := by
  rw [forestPlaces, subtreesOf_eq, List.map_flatMap, List.map_flatMap]
  exact List.Perm.flatMap_left _ fun t _ => perm_ids_sortSpans t

theorem nodup_forestPlaces (hids : DistinctIDs roots) :
    ((forestPlaces S roots).map placeID).Nodup :=
  perm_ids_forestPlaces.nodup_iff.2 hids

/-- An id names one place. -/
theorem place_eq (hids : DistinctIDs roots) {p q : Place Span} (hp : p ∈ forestPlaces S roots)
    (hq : q ∈ forestPlaces S roots) (h : placeID p = placeID q) : p = q :=
  List.inj_on_of_nodup_map (nodup_forestPlaces hids) hp hq h

variable {p : Place Span}

theorem mem_forestPlaces {root : SpanNode} (hroot : root ∈ roots)
    (hp : p ∈ places [] false (sortSpans S root)) : p ∈ forestPlaces S roots :=
  List.mem_flatMap.2 ⟨root, hroot, hp⟩

/-- A span above a place of a tree is a place of the tree. -/
theorem exists_place_above {t : SpanNode} (hp : p ∈ places [] false t) {span : Span}
    {above : List Span} (h : (span :: above) <:+ p.above) :
    ∃ q ∈ places [] false t, q.node.label = span ∧ q.above = above :=
  above_mem_places hp h (Nat.zero_le _)

/-- The same for a span that is only known by its id. -/
theorem exists_place_of_mem_above {t : SpanNode} (hp : p ∈ places [] false t) {id : String}
    (h : id ∈ idsOf p.above) :
    ∃ q ∈ places [] false t, placeID q = id ∧ q.above.length < p.above.length := by
  obtain ⟨span, hspan, rfl⟩ := List.mem_map.1 h
  obtain ⟨lower, above, hsplit⟩ := List.append_of_mem hspan
  obtain ⟨q, hq, hlabel, habove⟩ := exists_place_above hp ⟨lower, hsplit.symm⟩
  refine ⟨q, hq, ?_, ?_⟩
  · rw [placeID, spanID, hlabel]
  · rw [habove, hsplit, List.length_append, List.length_cons]
    omega

/-- No span stands above itself. -/
theorem placeID_not_mem_above (hids : DistinctIDs roots) (hp : p ∈ forestPlaces S roots) :
   placeID p ∉ idsOf p.above := by
  intro hmem
  obtain ⟨root, hroot, hp'⟩ := List.mem_flatMap.1 hp
  obtain ⟨q, hq, hid, hlen⟩ := exists_place_of_mem_above hp' hmem
  rw [place_eq hids (mem_forestPlaces hroot hq) hp hid] at hlen
  omega

end Places

/-! ## The path to the selected span -/

mutual

theorem path_eq_none {selected : String} : ∀ {t : SpanNode},
    selected ∉ t.subtrees.map spanID → getPathFromRootToSelectedSpanId selected t = none
  | node span children, h => by
    rw [subtrees, List.map_cons, List.mem_cons, not_or] at h
    have hne : span.spanID ≠ selected := Ne.symm h.1
    rw [getPathFromRootToSelectedSpanId, if_neg hne, pathFromChildren_eq_none h.2]
    rfl

theorem pathFromChildren_eq_none {selected : String} : ∀ {ts : List SpanNode},
    selected ∉ (subtreesOf ts).map spanID → getPathFromChildren selected ts = none
  | [], _ => rfl
  | t :: ts, h => by
    rw [subtreesOf, List.map_append, List.mem_append, not_or] at h
    rw [getPathFromChildren, path_eq_none h.1, pathFromChildren_eq_none h.2]

end

mutual

/-- The path has the spans above the selected span, and the span itself. -/
theorem path_of_mem_places {above : List Span} {followed : Bool} {p : Place Span} :
    ∀ {t : SpanNode}, (t.subtrees.map spanID).Nodup → p ∈ places above followed t →
      ∃ path, getPathFromRootToSelectedSpanId (placeID p) t = some path ∧
        path.reverse ++ idsOf above = placeID p :: idsOf p.above
  | node span children, hids, hp => by
    rw [subtrees, List.map_cons, List.nodup_cons] at hids
    rw [places, List.mem_cons] at hp
    rw [getPathFromRootToSelectedSpanId]
    cases hp with
    | inl hp =>
      subst hp
      exact ⟨[span.spanID], if_pos rfl, rfl⟩
    | inr hp =>
      have hne : span.spanID ≠ placeID p := by
        intro heq
        apply hids.1
        rw [← map_node_placesOf (span :: above), List.map_map]
        exact List.mem_map.2 ⟨p, hp, heq.symm⟩
      obtain ⟨path, hpath, hrev⟩ := path_of_mem_placesOf hids.2 hp
      refine ⟨span.spanID :: path, ?_, ?_⟩
      · rw [if_neg hne, hpath]
        rfl
      · rw [List.reverse_cons, List.append_assoc]
        exact hrev

theorem path_of_mem_placesOf {above : List Span} {p : Place Span} :
    ∀ {ts : List SpanNode}, ((subtreesOf ts).map spanID).Nodup → p ∈ placesOf above ts →
      ∃ path, getPathFromChildren (placeID p) ts = some path ∧
        path.reverse ++ idsOf above = placeID p :: idsOf p.above
  | t :: ts, hids, hp => by
    rw [subtreesOf, List.map_append, List.nodup_append] at hids
    obtain ⟨hfirst, hrest, hdisjoint⟩ := hids
    rw [placesOf, List.mem_append] at hp
    rw [getPathFromChildren]
    cases hp with
    | inl hp =>
      obtain ⟨path, hpath, hrev⟩ := path_of_mem_places hfirst hp
      rw [hpath]
      exact ⟨path, rfl, hrev⟩
    | inr hp =>
      -- the search passes over the first tree
      have hmem : placeID p ∈ (subtreesOf ts).map spanID := by
        rw [← map_node_placesOf above, List.map_map]
        exact List.mem_map.2 ⟨p, hp, rfl⟩
      rw [path_eq_none fun h => hdisjoint _ h _ hmem rfl]
      exact path_of_mem_placesOf hrest hp

end

variable {S : Sorter} {t : SpanNode}

/-- What is said of a span and the spans above it holds of a place of the sorted tree as well. -/
theorem exists_place_sortSpans (Q : Span × List Span → Prop) :
    (∃ p ∈ places [] false (sortSpans S t), Q p.stand) ↔ ∃ p ∈ places [] false t, Q p.stand := by
  have hperm := perm_stands_sortSpans (S := S) t
  constructor
  · rintro ⟨p, hp, hQ⟩
    obtain ⟨q, hq, heq⟩ := List.mem_map.1 (hperm.mem_iff.2 (List.mem_map_of_mem hp))
    exact ⟨q, hq, heq ▸ hQ⟩
  · rintro ⟨p, hp, hQ⟩
    obtain ⟨q, hq, heq⟩ := List.mem_map.1 (hperm.mem_iff.1 (List.mem_map_of_mem hp))
    exact ⟨q, hq, heq ▸ hQ⟩

/-- The spans of the path, over the places of the sorted tree. -/
theorem mem_path_iff (hids : (t.subtrees.map spanID).Nodup) (selected id : String) :
    id ∈ (getPathFromRootToSelectedSpanId selected t).getD [] ↔
      ∃ p ∈ places [] false (sortSpans S t), placeID p = selected ∧
        (id = selected ∨ id ∈ idsOf p.above) := by
  refine Iff.trans ?_ (exists_place_sortSpans (S := S) (t := t) fun q =>
    q.1.spanID = selected ∧ (id = selected ∨ id ∈ idsOf q.2)).symm
  constructor
  · intro h
    have hmem : selected ∈ t.subtrees.map spanID := by
      by_contra hnot
      rw [path_eq_none hnot] at h
      cases h
    rw [← map_placeID_places] at hmem
    obtain ⟨p, hp, rfl⟩ := List.mem_map.1 hmem
    obtain ⟨path, hpath, hrev⟩ := path_of_mem_places hids hp
    refine ⟨p, hp, rfl, ?_⟩
    rw [hpath, Option.getD_some, ← List.mem_reverse] at h
    rw [idsOf, List.map_nil, List.append_nil] at hrev
    rw [hrev] at h
    exact List.mem_cons.1 h
  · rintro ⟨p, hp, rfl, hid⟩
    obtain ⟨path, hpath, hrev⟩ := path_of_mem_places hids hp
    rw [idsOf, List.map_nil, List.append_nil] at hrev
    rw [show getPathFromRootToSelectedSpanId (p.stand.1.spanID) t = some path from hpath,
      Option.getD_some, ← List.mem_reverse, hrev]
    exact List.mem_cons.2 hid

theorem exists_place_of_mem_path (hids : (t.subtrees.map spanID).Nodup) {selected id : String}
    (h : id ∈ (getPathFromRootToSelectedSpanId selected t).getD []) :
    ∃ q ∈ places [] false (sortSpans S t), placeID q = id := by
  obtain ⟨p, hp, hselected, rfl | habove⟩ := (mem_path_iff hids selected id).1 h
  · exact ⟨p, hp, hselected⟩
  · obtain ⟨q, hq, hid, _⟩ := exists_place_of_mem_above hp habove
    exact ⟨q, hq, hid⟩

/-! ## The loop over the roots -/

/-- After some of the roots: nothing is forgotten, the spans that were added are uncollapsed in
terms of the places, the visible spans are listed, and the index is the one of the selected span. -/
structure SelectedFrom (S : Sorter) (all : List (Place Span)) (opts : TraverseOpts)
    (done : List SpanNode) (state : Selection) : Prop where
  keeps : ∀ id ∈ opts.uncollapsedSpans, id ∈ state.uncollapsedSpanMap
  adds : ∀ id ∈ state.uncollapsedSpanMap, id ∈ opts.uncollapsedSpans ∨
    ∃ p ∈ forestPlaces S done, placeID p = id ∧ isUncollapsed all opts (p.node.label :: p.above)
  lists : state.preOrderTraversal =
    ((forestPlaces S done).filter fun p => isVisible all opts p.above).map listed
  index : state.selectedSpanIndex =
    findIndexForSelectedSpanFromPreOrder state.preOrderTraversal opts.selectedSpanID

variable {opts : TraverseOpts}

/-- Options that uncollapse the same spans of a tree make the same part of it visible. -/
theorem isPartOfPreOrder_eq {all : List (Place Span)} {uncollapsed : List String}
    (h : ∀ q ∈ places [] false (sortSpans S t),
      (placeID q ∈ uncollapsed ∨ 0 < autoExpandDepth opts (q.node.label :: q.above)) ↔
        isUncollapsed all opts (q.node.label :: q.above)) {p : Place Span}
    (hp : p ∈ places [] false (sortSpans S t)) {above : List Span} (hsuffix : above <:+ p.above) :
    isPartOfPreOrder { opts with uncollapsedSpans := uncollapsed } above =
      isVisible all opts above := by
  induction above with
  | nil => rfl
  | cons span above ih =>
    obtain ⟨q, hq, rfl, rfl⟩ := exists_place_above hp hsuffix
    rw [isPartOfPreOrder, isVisible, ih ((List.suffix_cons _ _).trans hsuffix),
      autoExpandDepth_congr]
    congr 1
    rw [Bool.eq_iff_iff, ← h q hq, Bool.or_eq_true, decide_eq_true_eq, decide_eq_true_eq]
    rfl

section Loop

variable {S : Sorter} {roots done rest : List SpanNode} {t : SpanNode} {opts : TraverseOpts}
  {state : Selection}

/-- The uncollapsed spans with which a root is traversed. -/
def uncollapsedFor (opts : TraverseOpts) (state : Selection) (rootNode : SpanNode) : List String :=
  state.uncollapsedSpanMap ++
    ((getPathFromRootToSelectedSpanId opts.selectedSpanID rootNode).getD []).filter fun spanID =>
      !(opts.selectedSpanID = spanID && !opts.isSelectedSpanUncollapsed)

/-- The options with which a root is traversed. -/
def optsFor (opts : TraverseOpts) (state : Selection) (rootNode : SpanNode) : TraverseOpts :=
  { opts with uncollapsedSpans := uncollapsedFor opts state rootNode }

theorem forestPlaces_append (ts us : List SpanNode) :
    forestPlaces S (ts ++ us) = forestPlaces S ts ++ forestPlaces S us :=
  List.flatMap_append

theorem DistinctIDs.tree (hids : DistinctIDs roots) (ht : t ∈ roots) :
    (t.subtrees.map spanID).Nodup := by
  rw [DistinctIDs, subtreesOf_eq, List.map_flatMap, List.nodup_flatMap] at hids
  exact hids.1 t ht

/-- A place has its id in its own tree only. -/
theorem mem_places_of_mem_above (hids : DistinctIDs roots) (ht : t ∈ roots) {p q : Place Span}
    (hq : q ∈ places [] false (sortSpans S t)) (hp : p ∈ forestPlaces S roots)
    (habove : placeID q ∈ idsOf p.above) : p ∈ places [] false (sortSpans S t) := by
  obtain ⟨u, hu, hpu⟩ := List.mem_flatMap.1 hp
  obtain ⟨r, hr, hid, _⟩ := exists_place_of_mem_above hpu habove
  have hnodup := nodup_forestPlaces (S := S) hids
  rw [forestPlaces, List.map_flatMap, List.nodup_flatMap] at hnodup
  by_contra hnot
  have hne : t ≠ u := by
    rintro rfl
    exact hnot hpu
  have : Std.Symm (Function.onFun List.Disjoint fun u : SpanNode =>
      (places [] false (sortSpans S u)).map placeID) := ⟨fun _ _ h _ ha hb => h hb ha⟩
  apply hnodup.2.forall ht hu hne (List.mem_map_of_mem hq)
  rw [← hid]
  exact List.mem_map_of_mem hr

/-- The map with the path to the selected span, and the automatic depth, uncollapse what the
definition over the places does. -/
theorem uncollapsedFor_iff (hids : DistinctIDs roots) (hroots : roots = done ++ t :: rest)
    (h : SelectedFrom S (forestPlaces S roots) opts done state) {q : Place Span}
    (hq : q ∈ places [] false (sortSpans S t)) :
    (placeID q ∈ uncollapsedFor opts state t ∨
      0 < autoExpandDepth opts (q.node.label :: q.above)) ↔
      isUncollapsed (forestPlaces S roots) opts (q.node.label :: q.above) := by
  have ht : t ∈ roots := by
    rw [hroots]
    exact List.mem_append_right _ List.mem_cons_self
  have hqall := mem_forestPlaces ht hq
  have hid : q.node.label.spanID = placeID q := rfl
  rw [isUncollapsed_iff, uncollapsedFor, List.mem_append, List.mem_filter,
    mem_path_iff (hids.tree ht) opts.selectedSpanID, hid]
  constructor
  · rintro ((hmap | ⟨⟨p, hp, hsel, hself | habove⟩, hkept⟩) | hdepth)
    · -- a span of this tree that is in the map was there from the start
      rcases h.adds _ hmap with hopts | ⟨p, hp, hpid, _⟩
      · exact Or.inl hopts
      · have hnodup := nodup_forestPlaces (S := S) hids
        rw [hroots, forestPlaces_append, List.map_append, List.nodup_append] at hnodup
        refine absurd hpid (hnodup.2.2 _ (List.mem_map_of_mem hp) _ (List.mem_map_of_mem ?_))
        exact mem_forestPlaces List.mem_cons_self hq
    · -- the selected span itself is on the path when it is to be uncollapsed
      refine Or.inr (Or.inr ((lt_autoExpandDepth_iff opts _ 0).2 ⟨?_, ?_⟩))
      · simpa [hself] using hkept
      · rw [Nat.sub_zero, maxDepthForSelectedSpanChildren, List.take_succ_cons, idsOf,
          List.map_cons, hid, hself]
        exact List.mem_cons_self
    · exact Or.inr (Or.inl ⟨p, mem_forestPlaces ht hp, hsel, habove⟩)
    · exact Or.inr (Or.inr hdepth)
  · rintro (hopts | ⟨p, hp, hsel, habove⟩ | hdepth)
    · exact Or.inl (Or.inl (h.keeps _ hopts))
    · refine Or.inl (Or.inr ⟨⟨p, mem_places_of_mem_above hids ht hq hp habove, hsel,
        Or.inr habove⟩, ?_⟩)
      -- above the selected span, so another one
      have hne : opts.selectedSpanID ≠ placeID q := by
        intro heq
        rw [← heq, ← hsel] at habove
        exact placeID_not_mem_above hids hp habove
      simp [hne]
    · exact Or.inr hdepth

theorem findIndex_eq_neg_one {spans : List ListedSpan} {selected : String} :
    findIndexForSelectedSpanFromPreOrder spans selected = -1 ↔
      ∀ s ∈ spans, s.span.spanID ≠ selected := by
  rw [findIndexForSelectedSpanFromPreOrder]
  constructor
  · intro h
    split at h
    · omega
    · next hnone => simpa using hnone
  · intro h
    have hnone : spans.findIdx? (fun s => s.span.spanID = selected) = none := by simpa using h
    rw [hnone]

theorem findIndex_append {spans spans' : List ListedSpan} {selected : String}
    (h : (∃ s ∈ spans', s.span.spanID = selected) → ∀ s ∈ spans, s.span.spanID ≠ selected) :
    findIndexForSelectedSpanFromPreOrder (spans ++ spans') selected =
      if findIndexForSelectedSpanFromPreOrder spans' selected ≠ -1 then
        findIndexForSelectedSpanFromPreOrder spans' selected + spans.length
      else findIndexForSelectedSpanFromPreOrder spans selected := by
  by_cases hfound : ∃ s ∈ spans', s.span.spanID = selected
  · have hfirst : spans.findIdx? (fun s => s.span.spanID = selected) = none := by
      simpa using h hfound
    have hne : findIndexForSelectedSpanFromPreOrder spans' selected ≠ -1 := by
      rw [Ne, findIndex_eq_neg_one]
      exact fun hnone => hfound.elim fun s hs => hnone s hs.1 hs.2
    rw [if_pos hne]
    rw [findIndexForSelectedSpanFromPreOrder] at hne
    rw [findIndexForSelectedSpanFromPreOrder, findIndexForSelectedSpanFromPreOrder,
      List.findIdx?_append, hfirst, Option.none_or]
    cases hidx : spans'.findIdx? fun s => s.span.spanID = selected with
    | none => rw [hidx] at hne; exact absurd rfl hne
    | some index => exact Int.natCast_add index spans.length
  · have hnone : spans'.findIdx? (fun s => s.span.spanID = selected) = none := by
      simpa using hfound
    have heq : findIndexForSelectedSpanFromPreOrder spans' selected = -1 := by
      rw [findIndexForSelectedSpanFromPreOrder, hnone]
    rw [heq, if_neg (fun h => h rfl), findIndexForSelectedSpanFromPreOrder,
      findIndexForSelectedSpanFromPreOrder, List.findIdx?_append, hnone, Option.map_none,
      Option.or_none]

/-- The traversal of a root, in terms of the places. -/
theorem traverseTrace_root (hids : DistinctIDs roots) (hroots : roots = done ++ t :: rest)
    (hall : opts.selectAll = false) (h : SelectedFrom S (forestPlaces S roots) opts done state)
    {traversal : Traversal}
    (htraversal : traversal = traverseTrace S t (optsFor opts state t) 0 true false 0) :
    traversal.preOrderTraversal = ((places [] false (sortSpans S t)).filter fun p =>
      isVisible (forestPlaces S roots) opts p.above).map listed ∧
    ∀ id ∈ traversal.autoExpandedSpans, ∃ q ∈ places [] false (sortSpans S t), placeID q = id ∧
      0 < autoExpandDepth opts (q.node.label :: q.above) := by
  have hwalk := @walk_eq (optsFor opts state t) hall [] false (sortSpans S t)
  rw [show traversal = _ from htraversal.trans hwalk]
  constructor
  · refine congrArg (List.map listed) (List.filter_congr fun p hp => ?_)
    exact isPartOfPreOrder_eq (fun q hq => uncollapsedFor_iff hids hroots h hq) hp
      List.suffix_rfl
  · intro id hid
    obtain ⟨q, hq, rfl⟩ := List.mem_map.1 hid
    obtain ⟨hq, hauto⟩ := List.mem_filter.1 hq
    refine ⟨q, hq, rfl, ?_⟩
    rw [isAutoExpanded, optsFor, autoExpandDepth_congr] at hauto
    simp only [Bool.and_eq_true, decide_eq_true_eq] at hauto
    exact hauto.1.1.2

theorem selectRoot_eq (hall : opts.selectAll = false) :
    selectRoot S opts.selectedSpanID opts.isSelectedSpanUncollapsed state t =
      let traversal := traverseTrace S t (optsFor opts state t) 0 true false 0
      let index :=
        findIndexForSelectedSpanFromPreOrder traversal.preOrderTraversal opts.selectedSpanID
      { uncollapsedSpanMap := uncollapsedFor opts state t ++ traversal.autoExpandedSpans
        preOrderTraversal := state.preOrderTraversal ++ traversal.preOrderTraversal
        selectedSpanIndex :=
          if index ≠ -1 then index + state.preOrderTraversal.length else state.selectedSpanIndex
        rootServiceName :=
          if state.rootServiceName = "" then t.label.serviceName else state.rootServiceName
        rootServiceEntryPoint :=
          if state.rootServiceEntryPoint = "" then t.label.name
          else state.rootServiceEntryPoint } := by
  cases opts
  subst hall
  rfl

/-- One root. -/
theorem SelectedFrom.step (hids : DistinctIDs roots) (hroots : roots = done ++ t :: rest)
    (hall : opts.selectAll = false)
    (h : SelectedFrom S (forestPlaces S roots) opts done state) :
    SelectedFrom S (forestPlaces S roots) opts (done ++ [t])
      (selectRoot S opts.selectedSpanID opts.isSelectedSpanUncollapsed state t) := by
  have ht : t ∈ roots := by
    rw [hroots]
    exact List.mem_append_right _ List.mem_cons_self
  have hplaces : forestPlaces S (done ++ [t]) =
      forestPlaces S done ++ places [] false (sortSpans S t) := by
    rw [forestPlaces_append]
    exact congrArg _ (List.append_nil _)
  obtain ⟨hpre, hauto⟩ := traverseTrace_root hids hroots hall h rfl
  have hlists : state.preOrderTraversal ++
      (traverseTrace S t (optsFor opts state t) 0 true false 0).preOrderTraversal =
      ((forestPlaces S (done ++ [t])).filter fun p =>
        isVisible (forestPlaces S roots) opts p.above).map listed := by
    rw [hpre, h.lists, hplaces, List.filter_append, List.map_append]
  rw [selectRoot_eq hall]
  constructor
  case keeps =>
    intro id hid
    exact List.mem_append_left _ (List.mem_append_left _ (h.keeps id hid))
  case adds =>
    intro id hid
    rw [hplaces]
    rcases List.mem_append.1 hid with hid | hid
    · by_cases hmap : id ∈ state.uncollapsedSpanMap
      · refine (h.adds id hmap).imp_right ?_
        rintro ⟨p, hp, hrest⟩
        exact ⟨p, List.mem_append_left _ hp, hrest⟩
      · -- on the path, so a place of this tree
        have hpath := (List.mem_append.1 hid).resolve_left hmap
        obtain ⟨q, hq, rfl⟩ :=
          exists_place_of_mem_path (hids.tree ht) (List.mem_of_mem_filter hpath)
        exact Or.inr ⟨q, List.mem_append_right _ hq, rfl,
          (uncollapsedFor_iff hids hroots h hq).1 (Or.inl hid)⟩
    · obtain ⟨q, hq, rfl, hdepth⟩ := hauto id hid
      refine Or.inr ⟨q, List.mem_append_right _ hq, rfl, ?_⟩
      rw [isUncollapsed_iff]
      exact Or.inr (Or.inr hdepth)
  case lists => exact hlists
  case index =>
    rw [findIndex_append, h.index]
    -- the selected span is listed once
    rintro ⟨s, hs, hselected⟩ s' hs' hselected'
    rw [hpre] at hs
    rw [h.lists] at hs'
    obtain ⟨p, hp, rfl⟩ := List.mem_map.1 hs
    obtain ⟨p', hp', rfl⟩ := List.mem_map.1 hs'
    have hnodup := nodup_forestPlaces (S := S) hids
    rw [hroots, forestPlaces_append, List.map_append, List.nodup_append] at hnodup
    refine hnodup.2.2 _ (List.mem_map_of_mem (List.mem_of_mem_filter hp')) _
      (List.mem_map_of_mem (mem_forestPlaces List.mem_cons_self (List.mem_of_mem_filter hp))) ?_
    exact hselected'.trans hselected.symm

/-- All roots. -/
theorem SelectedFrom.run (hids : DistinctIDs roots) (hroots : roots = done ++ rest)
    (hall : opts.selectAll = false)
    (h : SelectedFrom S (forestPlaces S roots) opts done state) :
    SelectedFrom S (forestPlaces S roots) opts roots
      (rest.foldl (selectRoot S opts.selectedSpanID opts.isSelectedSpanUncollapsed) state) := by
  induction rest generalizing done state with
  | nil =>
    rw [List.append_nil] at hroots
    rw [List.foldl_nil]
    exact hroots ▸ h
  | cons t rest ih =>
    rw [List.foldl_cons]
    refine @ih (done ++ [t]) _ ?_ ?_
    · rw [hroots, List.append_assoc]
      rfl
    · exact h.step hids hroots hall

end Loop

/-! ## The window -/

/-- The index around which the window is put: the first span when the selected one is not listed,
and the place before it when none is selected. -/
def selectedIndex (spans : List ListedSpan) (selected : String) : Int :=
  let index := findIndexForSelectedSpanFromPreOrder spans selected
  if index = -1 ∧ selected ≠ "" then 0 else index

/-- The window of the listed spans. -/
def page (spans : List ListedSpan) (selected : String) : Option (List ListedSpan) :=
  let bounds := windowBounds (selectedIndex spans selected) spans.length
  slice spans bounds.1 bounds.2

theorem windowBounds_spec {index : Int} {length : Nat} (hlower : -1 ≤ index)
    (_hupper : index < length ∨ index ≤ 0) :
    0 ≤ (windowBounds index length).1 ∧
      (windowBounds index length).2 ≤ length ∧
      (windowBounds index length).2 - (windowBounds index length).1 =
        min spanLimitPerRequestForWaterfall length ∧
      (0 ≤ index → index < length →
        (windowBounds index length).1 ≤ index ∧ index < (windowBounds index length).2) := by
  simp only [windowBounds, spanLimitPerRequestForWaterfall]
  split_ifs <;> omega

theorem findIndex_bounds (spans : List ListedSpan) (selected : String) :
    -1 ≤ findIndexForSelectedSpanFromPreOrder spans selected ∧
      findIndexForSelectedSpanFromPreOrder spans selected < spans.length := by
  rw [findIndexForSelectedSpanFromPreOrder]
  split
  · next index hindex =>
    have := (List.findIdx?_eq_some_iff_findIdx_eq.1 hindex).1
    omega
  · omega

theorem findIndex_of_exists {spans : List ListedSpan} {selected : String}
    (h : ∃ s ∈ spans, s.span.spanID = selected) :
    ∃ index : Nat, findIndexForSelectedSpanFromPreOrder spans selected = index ∧
      ∃ s, spans[index]? = some s ∧ s.span.spanID = selected := by
  have hsome : spans.findIdx? (fun s => s.span.spanID = selected) =
      some (spans.findIdx fun s => s.span.spanID = selected) := by
    apply List.findIdx?_eq_some_of_exists
    simpa using h
  obtain ⟨hlt, hid, _⟩ := List.findIdx?_eq_some_iff_getElem.1 hsome
  refine ⟨_, ?_, _, List.getElem?_eq_getElem hlt, of_decide_eq_true hid⟩
  rw [findIndexForSelectedSpanFromPreOrder, hsome]

theorem slice_eq_some {α : Type} {list : List α} {lo hi : Int} (hlo : 0 ≤ lo) (hle : lo ≤ hi)
    (hhi : hi ≤ list.length) :
    ∃ before window after, slice list lo hi = some window ∧ list = before ++ window ++ after ∧
      (before.length : Int) = lo ∧ (window.length : Int) = hi - lo := by
  obtain ⟨m, rfl⟩ := Int.eq_ofNat_of_zero_le hlo
  obtain ⟨n, rfl⟩ := Int.eq_ofNat_of_zero_le (hlo.trans hle)
  have hsplit : list.take n = list.take m ++ (list.take n).drop m := by
    have hmin : min m n = m := by omega
    have := (List.take_append_drop m (list.take n)).symm
    rwa [List.take_take, hmin] at this
  refine ⟨list.take m, (list.take n).drop m, list.drop n, ?_, ?_, ?_, ?_⟩
  · rw [slice, if_pos ⟨hlo, hle, hhi⟩]
    rfl
  · rw [← hsplit, List.take_append_drop]
  · rw [List.length_take]
    omega
  · rw [List.length_drop, List.length_take]
    omega

/-- The window is within the list, is full as far as the list goes, and has the selected span. -/
theorem page_spec (spans : List ListedSpan) (selected : String) :
    ∃ before window after, page spans selected = some window ∧
      spans = before ++ window ++ after ∧
      window.length = min spanLimitPerRequestForWaterfall spans.length ∧
      ((∃ s ∈ spans, s.span.spanID = selected) → ∃ s ∈ window, s.span.spanID = selected) := by
  obtain ⟨hlower, hupper⟩ := findIndex_bounds spans selected
  have hindex : -1 ≤ selectedIndex spans selected ∧
      (selectedIndex spans selected < spans.length ∨ selectedIndex spans selected ≤ 0) := by
    simp only [selectedIndex]
    split_ifs <;> omega
  obtain ⟨hlo, hhi, hlength, hselected⟩ := windowBounds_spec hindex.1 hindex.2
  obtain ⟨before, window, after, hpage, hsplit, hbefore, hwindow⟩ :=
    slice_eq_some hlo (by omega) hhi
  refine ⟨before, window, after, hpage, hsplit, by omega, fun hexists => ?_⟩
  obtain ⟨index, hindex, s, hs, hid⟩ := findIndex_of_exists hexists
  have heq : selectedIndex spans selected = index := by
    rw [selectedIndex, hindex, if_neg]
    omega
  rw [heq] at hselected hbefore hwindow
  obtain ⟨hle, hlt⟩ := hselected (by omega) (by omega)
  obtain ⟨offset, rfl⟩ : ∃ offset, index = before.length + offset :=
    ⟨index - before.length, by omega⟩
  have hoffset : offset < window.length := by omega
  rw [hsplit, List.append_assoc, List.getElem?_append_right (by omega), Nat.add_sub_cancel_left,
    List.getElem?_append_left hoffset] at hs
  exact ⟨s, List.mem_of_getElem? hs, hid⟩

/-! ## A request -/

/-- The options of a request. -/
def requestOpts (uncollapsedSpans : List String) (selectedSpanID : String)
    (isSelectedSpanIDUnCollapsed : Bool) : TraverseOpts :=
  { uncollapsedSpans, selectedSpanID, isSelectedSpanUncollapsed := isSelectedSpanIDUnCollapsed
    selectAll := false }

variable {roots : List SpanNode}

/-- A request returns the page of the visible spans, and uncollapsed spans that are uncollapsed in
terms of the places already. -/
theorem getSelectedSpans_eq (S : Sorter) (uncollapsedSpans : List String) {selectedSpanID : String}
    {traceRoots : List SpanNode} {spanIdToSpanNodeMap : String → Option SpanNode}
    {isSelectedSpanIDUnCollapsed : Bool}
    (hopts : opts = requestOpts uncollapsedSpans selectedSpanID isSelectedSpanIDUnCollapsed)
    (hroots : roots = rootNodes traceRoots spanIdToSpanNodeMap) (hids : DistinctIDs roots) :
    ∃ updated rootServiceName rootServiceEntryPoint,
      getSelectedSpans S uncollapsedSpans selectedSpanID traceRoots spanIdToSpanNodeMap
          isSelectedSpanIDUnCollapsed =
        (page (visibleSpans S opts roots) selectedSpanID).map (fun spans =>
          (spans, updated, rootServiceName, rootServiceEntryPoint)) ∧
      (∀ id ∈ uncollapsedSpans, id ∈ updated) ∧
      ∀ p ∈ forestPlaces S roots, placeID p ∈ updated →
        isUncollapsed (forestPlaces S roots) opts (p.node.label :: p.above) := by
  have hinit : SelectedFrom S (forestPlaces S roots) opts []
      { uncollapsedSpanMap := uncollapsedSpans, preOrderTraversal := [], selectedSpanIndex := -1
        rootServiceName := "", rootServiceEntryPoint := "" } := by
    subst hopts
    exact ⟨fun id hid => hid, fun id hid => Or.inl hid, rfl, rfl⟩
  subst hopts hroots
  have hrun : SelectedFrom S _ _ _ (selectRoots S uncollapsedSpans selectedSpanID
      isSelectedSpanIDUnCollapsed (rootNodes traceRoots spanIdToSpanNodeMap)) :=
    hinit.run hids (List.nil_append _).symm rfl
  generalize hstate : selectRoots S uncollapsedSpans selectedSpanID isSelectedSpanIDUnCollapsed
    (rootNodes traceRoots spanIdToSpanNodeMap) = state at hrun
  refine ⟨state.uncollapsedSpanMap, state.rootServiceName, state.rootServiceEntryPoint, ?_,
    hrun.keeps, ?_⟩
  · have hindex := hrun.index
    rw [requestOpts] at hindex
    rw [getSelectedSpans, hstate, page, selectedIndex, visibleSpans, ← hrun.lists, ← hindex]
    obtain ⟨lo, hi⟩ := windowBounds _ _
    dsimp only
    cases slice state.preOrderTraversal lo hi with
    | none => rfl
    | some spans => rfl
  · intro p hp hid
    rcases hrun.adds _ hid with hopts | ⟨q, hq, hqid, huncollapsed⟩
    · exact (isUncollapsed_iff _ _ _ _).2 (Or.inl hopts)
    · rw [← place_eq hids hq hp hqid]
      exact huncollapsed

/-- Spans that are uncollapsed already change nothing when they are asked for. -/
theorem visibleSpans_congr {updated : List String}
    (hkeeps : ∀ id ∈ opts.uncollapsedSpans, id ∈ updated)
    (hadds : ∀ p ∈ forestPlaces S roots, placeID p ∈ updated →
      isUncollapsed (forestPlaces S roots) opts (p.node.label :: p.above)) :
    visibleSpans S { opts with uncollapsedSpans := updated } roots = visibleSpans S opts roots := by
  have hvisible : ∀ p ∈ forestPlaces S roots, ∀ above, above <:+ p.above →
      isVisible (forestPlaces S roots) { opts with uncollapsedSpans := updated } above =
        isVisible (forestPlaces S roots) opts above := by
    intro p hp above hsuffix
    obtain ⟨root, hroot, hp⟩ := List.mem_flatMap.1 hp
    induction above with
    | nil => rfl
    | cons span above ih =>
      obtain ⟨q, hq, rfl, rfl⟩ := exists_place_above hp hsuffix
      rw [isVisible, isVisible, ih ((List.suffix_cons _ _).trans hsuffix)]
      congr 1
      rw [Bool.eq_iff_iff, isUncollapsed_iff, autoExpandDepth_congr]
      constructor
      · rintro (hmem | hrest)
        · exact hadds q (mem_forestPlaces hroot hq) hmem
        · exact (isUncollapsed_iff _ _ _ _).2 (Or.inr hrest)
      · intro h
        exact ((isUncollapsed_iff _ _ _ _).1 h).imp_left (hkeeps _)
  refine congrArg (List.map listed) (List.filter_congr fun p hp => ?_)
  exact hvisible p hp _ List.suffix_rfl

/-- The selected span is visible, as its path is uncollapsed. -/
theorem isVisible_selected {all : List (Place Span)} {p : Place Span} (hp : p ∈ all)
    (hid : placeID p = opts.selectedSpanID) {above : List Span} (hsuffix : above <:+ p.above) :
   isVisible all opts above := by
  induction above with
  | nil => rfl
  | cons span above ih =>
    rw [isVisible, Bool.and_eq_true]
    refine ⟨ih ((List.suffix_cons _ _).trans hsuffix), ?_⟩
    rw [isUncollapsed_iff]
    refine Or.inr (Or.inl ⟨p, hp, hid, ?_⟩)
    exact List.mem_map_of_mem (hsuffix.subset List.mem_cons_self)

/-- The trees as a request leaves them. -/
def sortedMap (S : Sorter) (spanIdToSpanNodeMap : String → Option SpanNode) :
    String → Option SpanNode :=
  fun id => (spanIdToSpanNodeMap id).map (sortSpans S)

theorem sortSpans_sortSpans (hkeeps : S.KeepsOrder) (t : SpanNode) :
    sortSpans S (sortSpans S t) = sortSpans S t := by
  induction t using Rose.induction with
  | node span children ih =>
    have hsorted : (sortChildren S (children.map (sortSpans S))).map (sortSpans S) =
        sortChildren S (children.map (sortSpans S)) := by
      refine (List.map_congr_left fun c hc => ?_).trans (List.map_id _)
      obtain ⟨d, hd, rfl⟩ := List.mem_map.1 ((mem_byKey S).1 hc)
      exact ih d hd
    have htwice : sortSpans S (sortSpans S (node span children)) = node span (sortChildren S
        ((sortChildren S (children.map (sortSpans S))).map (sortSpans S))) := by
      rw [sortSpans, reorder_node, reorder_node]
    rw [htwice, hsorted, sortSpans, reorder_node]
    congr 1
    exact hkeeps siblingKey _ (pairwise_byKey S siblingKey _)

theorem rootNodes_sortedMap (S : Sorter) (traceRoots : List SpanNode)
    (spanIdToSpanNodeMap : String → Option SpanNode) :
    rootNodes traceRoots (sortedMap S spanIdToSpanNodeMap) =
      (rootNodes traceRoots spanIdToSpanNodeMap).map (sortSpans S) :=
  (List.map_filterMap).symm

theorem forestPlaces_sortSpans (hkeeps : S.KeepsOrder) (roots : List SpanNode) :
    forestPlaces S (roots.map (sortSpans S)) = forestPlaces S roots := by
  rw [forestPlaces, List.flatMap_map]
  exact List.flatMap_congr fun t _ => by rw [sortSpans_sortSpans hkeeps]

/-- Sorting keeps the ids different. -/
theorem DistinctIDs.map_sortSpans (hids : DistinctIDs roots) :
   DistinctIDs (roots.map (sortSpans S)) := by
  have hperm : ((roots.map (sortSpans S)).flatMap fun t => t.subtrees.map spanID).Perm
      (roots.flatMap fun t => t.subtrees.map spanID) := by
    rw [List.flatMap_map]
    apply List.Perm.flatMap_left
    intro t _
    rw [← map_placeID_places]
    exact perm_ids_sortSpans t
  rw [DistinctIDs, subtreesOf_eq, List.map_flatMap] at hids ⊢
  exact hperm.nodup_iff.2 hids

/-- A request whose uncollapsed spans are those of an earlier one and some that the earlier one
uncollapses anyway. -/
theorem page_of_same {selectedSpanID : String} {traceRoots : List SpanNode}
    {spanIdToSpanNodeMap : String → Option SpanNode} {isSelectedSpanIDUnCollapsed : Bool}
    {uncollapsedSpans updated uncollapsedSpans' : List String} {spans : List ListedSpan}
    {roots roots' : List SpanNode} (hroots' : roots' = rootNodes traceRoots spanIdToSpanNodeMap)
    (hids : DistinctIDs roots') (hplaces : forestPlaces S roots' = forestPlaces S roots)
    (hspans : page (visibleSpans S (requestOpts uncollapsedSpans selectedSpanID
      isSelectedSpanIDUnCollapsed) roots) selectedSpanID = some spans)
    (hkeeps : ∀ id ∈ uncollapsedSpans, id ∈ updated)
    (hadds : ∀ p ∈ forestPlaces S roots, placeID p ∈ updated →
      isUncollapsed (forestPlaces S roots) (requestOpts uncollapsedSpans selectedSpanID
        isSelectedSpanIDUnCollapsed) (p.node.label :: p.above))
    (hsame : ∀ id, id ∈ uncollapsedSpans' ↔ id ∈ updated) :
    (getSelectedSpans S uncollapsedSpans' selectedSpanID traceRoots spanIdToSpanNodeMap
      isSelectedSpanIDUnCollapsed).map Prod.fst = some spans := by
  obtain ⟨_, _, _, hresult, _, _⟩ :=
    getSelectedSpans_eq S uncollapsedSpans' rfl hroots' hids
  have hvisible := visibleSpans_congr
    (fun id hid => (hsame id).2 (hkeeps id hid))
    (fun p hp hid => hadds p hp ((hsame _).1 hid))
  have hsorted : visibleSpans S (requestOpts uncollapsedSpans' selectedSpanID
      isSelectedSpanIDUnCollapsed) roots' = visibleSpans S (requestOpts uncollapsedSpans
        selectedSpanID isSelectedSpanIDUnCollapsed) roots := by
    rw [← hvisible, visibleSpans, visibleSpans, hplaces]
    rfl
  rw [hresult, hsorted, hspans]
  rfl

/-- What a request returns: a contiguous part of the pre-order of the visible spans, as long as the
limit and the list allow, with the selected span in it if the trace has it. Each span carries its
depth and the size of its subtree. A request with the uncollapsed spans that were returned, in any
order, returns the same spans, also when it meets the children in the order this one left. -/
theorem getSelectedSpans_page (S : Sorter) (uncollapsedSpans : List String)
    (selectedSpanID : String) (traceRoots : List SpanNode)
    (spanIdToSpanNodeMap : String → Option SpanNode) (isSelectedSpanIDUnCollapsed : Bool)
    (roots : List SpanNode) (hroots : roots = rootNodes traceRoots spanIdToSpanNodeMap)
    (hids : DistinctIDs roots)
    (visible : List ListedSpan) (hvisible : visible = visibleSpans S
      (requestOpts uncollapsedSpans selectedSpanID isSelectedSpanIDUnCollapsed) roots) :
    ∃ before spans after updated rootServiceName rootServiceEntryPoint,
      getSelectedSpans S uncollapsedSpans selectedSpanID traceRoots spanIdToSpanNodeMap
        isSelectedSpanIDUnCollapsed =
          some (spans, updated, rootServiceName, rootServiceEntryPoint) ∧
      visible = before ++ spans ++ after ∧
      spans.length = min 500 visible.length ∧
      (selectedSpanID ∈ (subtreesOf roots).map spanID →
        ∃ s ∈ spans, s.span.spanID = selectedSpanID) ∧
      (∀ s ∈ spans, ∃ p ∈ forestPlaces S roots, s.span = p.node.label ∧
        s.level = p.above.length ∧ s.subTreeNodeCount = p.node.size) ∧
      ∀ uncollapsedSpans', (∀ id, id ∈ uncollapsedSpans' ↔ id ∈ updated) →
        (getSelectedSpans S uncollapsedSpans' selectedSpanID traceRoots spanIdToSpanNodeMap
          isSelectedSpanIDUnCollapsed).map Prod.fst = some spans ∧
        (S.KeepsOrder → (getSelectedSpans S uncollapsedSpans' selectedSpanID traceRoots
          (sortedMap S spanIdToSpanNodeMap) isSelectedSpanIDUnCollapsed).map Prod.fst =
            some spans) := by
  obtain ⟨updated, rootServiceName, rootServiceEntryPoint, hresult, hkeeps, hadds⟩ :=
    getSelectedSpans_eq S uncollapsedSpans rfl hroots hids
  rw [← hvisible] at hresult
  obtain ⟨before, spans, after, hpage, hsplit, hlength, hselected⟩ :=
    page_spec visible selectedSpanID
  rw [hpage] at hresult
  have hlisted : ∀ s ∈ visible, ∃ p ∈ forestPlaces S roots, listed p = s := by
    intro s hs
    rw [hvisible] at hs
    obtain ⟨p, hp, rfl⟩ := List.mem_map.1 hs
    exact ⟨p, List.mem_of_mem_filter hp, rfl⟩
  refine ⟨before, spans, after, updated, rootServiceName, rootServiceEntryPoint, hresult, hsplit,
    hlength, ?_, ?_, ?_⟩
  · intro hmem
    apply hselected
    obtain ⟨p, hp, hid⟩ := List.mem_map.1 (perm_ids_forestPlaces (S := S).mem_iff.2 hmem)
    refine ⟨listed p, ?_, hid⟩
    rw [hvisible]
    apply List.mem_map_of_mem
    apply List.mem_filter.2
    exact ⟨hp, isVisible_selected hp hid List.suffix_rfl⟩
  · intro s hs
    obtain ⟨p, hp, rfl⟩ := hlisted s (by
      rw [hsplit]
      exact List.mem_append_left _ (List.mem_append_right _ hs))
    exact ⟨p, hp, rfl, rfl, rfl⟩
  · intro uncollapsedSpans' hsame
    constructor
    · exact page_of_same hroots hids rfl (hvisible ▸ hpage) hkeeps hadds hsame
    · intro horder
      apply page_of_same _ hids.map_sortSpans (forestPlaces_sortSpans horder roots)
        (hvisible ▸ hpage) hkeeps hadds hsame
      rw [rootNodes_sortedMap, hroots]

/-- A span with two children that start together. -/
def forkedTrace : SpanNode :=
  node ⟨"a", "front", "GET /", 0⟩
    [node ⟨"c", "cart", "read", 1⟩ [], node ⟨"b", "cart", "read", 1⟩ []]

theorem forkedTrace_page :
    ∃ before spans after updated rootServiceName rootServiceEntryPoint,
      getSelectedSpans stable [] "b" [forkedTrace] (fun _ => some forkedTrace) false =
          some (spans, updated, rootServiceName, rootServiceEntryPoint) ∧
      visibleSpans stable (requestOpts [] "b" false) [forkedTrace] = before ++ spans ++ after ∧
      spans.length = min 500 (visibleSpans stable (requestOpts [] "b" false) [forkedTrace]).length ∧
      ∃ s ∈ spans, s.span.spanID = "b" := by
  obtain ⟨before, spans, after, updated, name, entry, hresult, hsplit, hlength, hselected, _⟩ :=
    getSelectedSpans_page stable [] "b" [forkedTrace] (fun _ => some forkedTrace) false
      [forkedTrace] rfl (by decide) _ rfl
  exact ⟨before, spans, after, updated, name, entry, hresult, hsplit, hlength,
    hselected (by decide)⟩

end Signoz.TraceDetail
