import Signoz.Querier.BucketPartition

/-!
# What paging with cursors returns

A page returns the first rows of its window in the requested order (`executeWindowList_eq`), as long
as the bounds are in milliseconds and the buckets fit (`Readable`), and only those in the time range
of the traces that the filter names. The cursor keeps the millisecond of the last row, and the next
window begins a millisecond later or, descending, ends a millisecond earlier although the bound is
exclusive. So the rows after a page are lost when they share the millisecond of its last row, and
descending also when they are in the millisecond before (`Beyond`). Paging returns every row of the
window once and in order exactly when no page edge is like that and no row of the window is outside
the time range of the traces (`readPages_exact_iff`).
-/

namespace Signoz.Querier

open Lib

/-! ## Cursors -/

theorem formatInt_natCast (n : Nat) : formatInt n = Nat.toDigits 10 n := by
  simp [formatInt]

variable {n : Nat}

theorem parseInt_formatInt (h : n < 2 ^ 63) : parseInt (formatInt n) = some (n : Int) := by
  have hne : Nat.toDigits 10 n ≠ [] := Nat.toDigits_ne_nil
  have hdigit : ∀ c ∈ Nat.toDigits 10 n, c.isDigit = true := fun c hc =>
    Nat.isDigit_of_mem_toDigits (by decide) (by decide) hc
  obtain ⟨c, cs, hcs⟩ := List.exists_cons_of_ne_nil hne
  have hc : c.isDigit = true := hdigit c (hcs ▸ List.mem_cons_self)
  have hminus : ¬ (Nat.toDigits 10 n).head? = some '-' := by
    rw [hcs, List.head?_cons, Option.some.injEq]
    rintro rfl
    exact absurd hc (by decide)
  have hplus : ¬ (Nat.toDigits 10 n).head? = some '+' := by
    rw [hcs, List.head?_cons, Option.some.injEq]
    rintro rfl
    exact absurd hc (by decide)
  rw [formatInt_natCast]
  unfold parseInt
  simp only [hminus, hplus, or_self, if_false, hne, false_or]
  rw [if_neg (by simpa using hdigit), Nat.ofDigitChars_ten_toDigits]
  simpa using h

theorem lt_of_mem_formatInt {c : Char} (hc : c ∈ formatInt n) : c.toNat < 256 := by
  have hdigit : c.isDigit = true :=
    Nat.isDigit_of_mem_toDigits (by decide) (by decide) (formatInt_natCast n ▸ hc)
  simp only [Char.isDigit, Bool.and_eq_true, decide_eq_true_eq] at hdigit
  have := hdigit.2
  have h2 : c.val.toNat ≤ 57 := by simpa [UInt32.le_iff_toNat_le] using this
  change c.val.toNat < 256
  omega

theorem toList_encodeCursor (n : Nat) :
    (encodeCursor n).toList = Base64.encode ((formatInt n).map Char.toNat) := by
  simp [encodeCursor]

/-- The cursor of a millisecond is read back as it was written. -/
theorem decodeCursor_encodeCursor (h : n < 2 ^ 63) :
    decodeCursor (encodeCursor n) = some (n : Int) := by
  have hbytes : ∀ b ∈ (formatInt (n : Int)).map Char.toNat, b < 256 := by
    intro b hb
    obtain ⟨c, hc, rfl⟩ := List.mem_map.1 hb
    exact lt_of_mem_formatInt hc
  rw [decodeCursor, toList_encodeCursor, Base64.decode_encode _ hbytes]
  simpa [Function.comp_def] using parseInt_formatInt h

theorem encodeCursor_ne_empty (n : Nat) : encodeCursor n ≠ "" := by
  intro h
  have hlist := congrArg String.toList h
  rw [toList_encodeCursor] at hlist
  have hne : formatInt (n : Int) ≠ [] := by
    rw [formatInt_natCast]
    exact Nat.toDigits_ne_nil
  obtain ⟨c, cs, hcs⟩ := List.exists_cons_of_ne_nil hne
  rw [hcs] at hlist
  cases cs with
  | nil => simp [Base64.encode] at hlist
  | cons c' cs =>
    cases cs <;> simp [Base64.encode] at hlist

theorem trimSpace_encodeCursor (n : Nat) : trimSpace (encodeCursor n) = encodeCursor n := by
  have hbytes : ∀ b ∈ (formatInt (n : Int)).map Char.toNat, b < 256 := by
    intro b hb
    obtain ⟨c, hc, rfl⟩ := List.mem_map.1 hb
    exact lt_of_mem_formatInt hc
  have hspace := Base64.not_isWhitespace_of_mem_encode _ hbytes
  have hdrop : ∀ l : List Char, (∀ c ∈ l, c.isWhitespace = false) →
      l.dropWhile Char.isWhitespace = l := by
    intro l hl
    cases l with
    | nil => rfl
    | cons c l => rw [List.dropWhile_cons_of_neg (by simp [hl c List.mem_cons_self])]
  rw [trimSpace, toList_encodeCursor, hdrop _ hspace, hdrop _ (by simpa using hspace),
    List.reverse_reverse, ← toList_encodeCursor, String.ofList_toList]

/-- The window that the cursor of a millisecond asks for. -/
def windowBehind (isAsc : Bool) (w : TimeRange) (n : Nat) : TimeRange :=
  if isAsc then ⟨n + 1, w.toMs⟩ else ⟨w.fromMs, uint64 ((n : Int) - 1)⟩

/-- The window after a cursor of one of its milliseconds. -/
theorem cursorWindow_encodeCursor (isAsc : Bool) {w : TimeRange} (hn : n < 2 ^ 62)
    (hfrom : w.fromMs ≤ n) (hto : n ≤ w.toMs) :
    cursorWindow isAsc w (encodeCursor n) = windowBehind isAsc w n := by
  have h1 : uint64 (n : Int) = n := uint64_natCast (by omega)
  have h2 : uint64 ((n : Int) + 1) = n + 1 := by unfold uint64; omega
  unfold cursorWindow windowBehind
  rw [trimSpace_encodeCursor, if_neg (encodeCursor_ne_empty n),
    decodeCursor_encodeCursor (by omega)]
  simp only [h1, h2, if_pos hfrom, if_pos hto]

@[simp] theorem cursorWindow_empty (isAsc : Bool) (w : TimeRange) : cursorWindow isAsc w "" = w := by
  simp [cursorWindow, trimSpace]

/-! ## Buckets -/

/-- `ToNanoSecs` takes both bounds for milliseconds (they have 13 digits, or are zero), and no bucket
runs over zero. -/
structure Readable (w : TimeRange) : Prop where
  from_ms : w.fromMs = 0 ∨ 10 ^ 12 ≤ w.fromMs ∧ w.fromMs < 10 ^ 13
  to_ms : w.toMs = 0 ∧ w.fromMs = 0 ∨ 10 ^ 12 ≤ w.toMs ∧ w.toMs < 10 ^ 13
  fits : NoOverrun (w.fromMs * 10 ^ 6) (w.toMs * 10 ^ 6)

theorem toNanoSecs_of_ms (h : n = 0 ∨ 10 ^ 12 ≤ n ∧ n < 10 ^ 13) :
    toNanoSecs n = n * 10 ^ 6 := by
  obtain rfl | ⟨h1, h2⟩ := h
  · decide
  · exact toNanoSecs_of_epoch h1 h2

/-- The buckets of a window cut it up; a window that ends before it begins is one bucket. -/
theorem makeBuckets_readable {rounds : Nat} (hrounds : 24 ≤ rounds) {w : TimeRange}
    (hw : Readable w) : ∃ rs, makeBuckets rounds w.fromMs w.toMs = some rs ∧
      (Partitions (w.fromMs * 10 ^ 6) (w.toMs * 10 ^ 6) rs ∨
        w.toMs ≤ w.fromMs ∧ rs = [⟨w.fromMs * 10 ^ 6, w.toMs * 10 ^ 6⟩]) := by
  obtain ⟨hfrom, hto, hfits⟩ := hw
  have hstart := toNanoSecs_of_ms hfrom
  have hend := toNanoSecs_of_ms (hto.imp_left And.left)
  by_cases horder : w.fromMs < w.toMs
  · have hout := @makeBuckets_of_noOverrun rounds w.fromMs w.toMs hrounds
      (by rw [hstart, hend]; omega) (by rw [hstart, hend]; exact hfits)
    rw [hstart, hend] at hout
    obtain ⟨out, hout, hparts⟩ := hout
    exact ⟨out, hout, .inl hparts⟩
  · have hback : w.toMs ≤ w.fromMs := Nat.le_of_not_lt horder
    refine ⟨_, ?_, .inr ⟨hback, rfl⟩⟩
    rw [makeBuckets_eq, hstart, hend]
    by_cases hsame : w.toMs = w.fromMs
    · rw [hsame, subUint64_of_le (Nat.le_refl _) (by omega), Nat.sub_self, if_pos (Nat.zero_le _)]
    · -- the first bucket reaches back behind the start
      have hhour : hourNanos ≤ w.toMs * 10 ^ 6 := by
        unfold hourNanos
        omega
      have hsub : subUint64 (w.toMs * 10 ^ 6) (2 ^ 0 * hourNanos) =
          w.toMs * 10 ^ 6 - 2 ^ 0 * hourNanos :=
        subUint64_of_le (by omega) (by omega)
      have hlong : ¬ subUint64 (w.toMs * 10 ^ 6) (w.fromMs * 10 ^ 6) ≤ hourNanos := by
        have hmod : w.fromMs * 10 ^ 6 % 2 ^ 64 = w.fromMs * 10 ^ 6 := Nat.mod_eq_of_lt (by omega)
        rw [subUint64, hmod, Nat.mod_eq_of_lt (by omega)]
        unfold hourNanos
        omega
      obtain ⟨n, rfl⟩ : ∃ n, rounds = n + 1 := ⟨rounds - 1, by omega⟩
      rw [if_neg hlong, bucketLoop_succ, hsub, Nat.max_eq_right (by omega), if_pos rfl]

/-! ## Pages -/

section Pages

variable {R : Type} {ts : R → Nat}

/-- The rows of a window. -/
def windowRows (ts : R → Nat) (rows : List R) (w : TimeRange) : List R :=
  rows.filter fun r => decide (w.fromMs * 10 ^ 6 ≤ ts r) && decide (ts r < w.toMs * 10 ^ 6)

/-- The rows are in the requested order of time. -/
def Ordered (isAsc : Bool) (ts : R → Nat) (rows : List R) : Prop :=
  rows.Pairwise fun a b => if isAsc then ts a ≤ ts b else ts b ≤ ts a

/-- Building and running a statement returns the first rows of its bounds in the requested order. -/
def BuildsFrom (ts : R → Nat) (rows : List R) (build : Nat → Nat → Nat → List R) : Prop :=
  ∀ fromMs toMs limit, build fromMs toMs limit = (windowRows ts rows ⟨fromMs, toMs⟩).take limit

/-- Filtering for one of two classes, when no element of the second precedes one of the first. -/
theorem filter_append_filter (p q : R → Bool) (l : List R)
    (hdisj : ∀ r, ¬ (p r = true ∧ q r = true))
    (horder : l.Pairwise fun a b => ¬ (q a = true ∧ p b = true)) :
    l.filter (fun r => p r || q r) = l.filter p ++ l.filter q := by
  induction l with
  | nil => rfl
  | cons a l ih =>
    obtain ⟨ha, hl⟩ := List.pairwise_cons.1 horder
    have hrest := ih hl
    cases hp : p a with
    | true =>
      have hq : q a = false := Bool.eq_false_iff.2 fun h => hdisj a ⟨hp, h⟩
      simp [hp, hq, hrest]
    | false =>
      cases hq : q a with
      | false => simp [hp, hq, hrest]
      | true =>
        have hnone : l.filter p = [] :=
          List.filter_eq_nil_iff.2 fun b hb h => ha b hb ⟨hq, h⟩
        simp [hp, hq, hrest, hnone]

variable {isAsc : Bool} {rows : List R} {w : TimeRange}

/-- The rows of a window are those of its two parts, the later part first when descending. -/
theorem windowRows_split (hrows : Ordered isAsc ts rows) {m : Nat} (hm : w.fromMs ≤ m)
    (hm' : m ≤ w.toMs) :
    windowRows ts rows w =
      if isAsc then windowRows ts rows ⟨w.fromMs, m⟩ ++ windowRows ts rows ⟨m, w.toMs⟩
      else windowRows ts rows ⟨m, w.toMs⟩ ++ windowRows ts rows ⟨w.fromMs, m⟩ := by
  have hmul := Nat.mul_le_mul_right (10 ^ 6) hm
  have hmul' := Nat.mul_le_mul_right (10 ^ 6) hm'
  unfold windowRows
  cases isAsc with
  | true =>
    rw [if_pos rfl, ← filter_append_filter]
    · refine List.filter_congr fun r _ => Bool.eq_iff_iff.2 ?_
      simp only [Bool.and_eq_true, Bool.or_eq_true, decide_eq_true_eq]
      omega
    · intro r
      simp only [Bool.and_eq_true, decide_eq_true_eq]
      omega
    · refine hrows.imp fun {a b} h => ?_
      simp only [if_true] at h
      simp only [Bool.and_eq_true, decide_eq_true_eq]
      omega
  | false =>
    rw [if_neg (by simp), ← filter_append_filter]
    · refine List.filter_congr fun r _ => Bool.eq_iff_iff.2 ?_
      simp only [Bool.and_eq_true, Bool.or_eq_true, decide_eq_true_eq]
      omega
    · intro r
      simp only [Bool.and_eq_true, decide_eq_true_eq]
      omega
    · refine hrows.imp fun {a b} h => ?_
      simp only [Bool.false_eq_true, if_false] at h
      simp only [Bool.and_eq_true, decide_eq_true_eq]
      omega

/-- The rows of the buckets, in the order they are read, are the rows of the window. -/
theorem flatMap_partitions (hrows : Ordered isAsc ts rows) {startNS endNS : Nat} {rs : List TsRange}
    (h : Partitions startNS endNS rs) :
    ((if isAsc then rs.reverse else rs).flatMap fun r =>
      windowRows ts rows ⟨r.fromNS / 10 ^ 6, r.toNS / 10 ^ 6⟩) =
        windowRows ts rows ⟨startNS / 10 ^ 6, endNS / 10 ^ 6⟩ := by
  induction rs generalizing endNS with
  | nil => exact absurd rfl h.nonempty
  | cons r rest ih =>
    have hend : r.toNS = endNS := h.first r rfl
    cases rest with
    | nil =>
      have hstart : r.fromNS = startNS := h.last r rfl
      cases isAsc <;> simp [hend, hstart]
    | cons r' rest =>
      have hrest := ih h.tail
      have hstart := h.tail.start_lt
      have hproper := h.proper r List.mem_cons_self
      rw [windowRows_split hrows (w := ⟨startNS / 10 ^ 6, endNS / 10 ^ 6⟩)
        (Nat.div_le_div_right hstart.le) (Nat.div_le_div_right (hend ▸ hproper.le))]
      cases isAsc with
      | true =>
        simp only [if_true] at hrest ⊢
        rw [List.reverse_cons, List.flatMap_append, hrest, List.flatMap_singleton, hend]
      | false =>
        simp only [Bool.false_eq_true, if_false] at hrest ⊢
        rw [List.flatMap_cons, hrest, hend]

theorem flatMap_buckets (hrows : Ordered isAsc ts rows) {rs : List TsRange}
    (h : Partitions (w.fromMs * 10 ^ 6) (w.toMs * 10 ^ 6) rs ∨
      w.toMs ≤ w.fromMs ∧ rs = [⟨w.fromMs * 10 ^ 6, w.toMs * 10 ^ 6⟩]) :
    ((if isAsc then rs.reverse else rs).flatMap fun r =>
      windowRows ts rows ⟨r.fromNS / 10 ^ 6, r.toNS / 10 ^ 6⟩) = windowRows ts rows w := by
  have hdiv : ∀ n : Nat, n * 10 ^ 6 / 10 ^ 6 = n := fun n => Nat.mul_div_cancel n (by decide)
  obtain hparts | ⟨-, rfl⟩ := h
  · rw [flatMap_partitions hrows hparts, hdiv, hdiv]
  · cases isAsc <;> simp

theorem appendRows_eq (reqLimit : Nat) (raw rows : List R) (h : rows.length < reqLimit) :
    appendRows reqLimit raw 0 rows = (0, rows ++ raw.take (reqLimit - rows.length)) := by
  induction raw generalizing rows with
  | nil => simp [appendRows]
  | cons r raw ih =>
    rw [appendRows]
    by_cases hfull : reqLimit ≤ (rows ++ [r]).length
    · rw [if_pos hfull]
      rw [List.length_append, List.length_singleton] at hfull
      rw [show reqLimit - rows.length = 1 by omega]
      simp
    · rw [if_neg hfull, ih _ (Nat.not_le.1 hfull)]
      rw [List.length_append, List.length_singleton] at hfull ⊢
      rw [show reqLimit - rows.length = reqLimit - (rows.length + 1) + 1 by omega]
      simp

/-- Reading buckets fills the page with the first rows of all of them. -/
theorem readBuckets_eq {build : Nat → Nat → Nat → List R} (hbuild : BuildsFrom ts rows build)
    {reqLimit : Nat} (rs : List TsRange) :
    ∀ page : List R, page.length < reqLimit →
      readBuckets build reqLimit rs (reqLimit - page.length) 0 page =
        (page ++ rs.flatMap fun r =>
          windowRows ts rows ⟨r.fromNS / 10 ^ 6, r.toNS / 10 ^ 6⟩).take reqLimit := by
  induction rs with
  | nil => intro page h; simp [readBuckets, List.take_of_length_le h.le]
  | cons r rs ih =>
    intro page h
    rw [readBuckets, hbuild, appendRows_eq _ _ _ h, List.flatMap_cons]
    generalize windowRows ts rows ⟨r.fromNS / 10 ^ 6, r.toNS / 10 ^ 6⟩ = sel
    simp only [List.take_take, Nat.min_self]
    by_cases hfull : reqLimit - page.length ≤ sel.length
    · rw [if_pos (by rw [List.length_append, List.length_take]; omega), List.take_append,
        List.take_of_length_le h.le, List.take_append_of_le_length hfull]
    · have htake : sel.take (reqLimit - page.length) = sel := List.take_of_length_le (by omega)
      rw [htake, if_neg (by rw [List.length_append]; omega), Nat.sub_sub, ← List.length_append,
        ih (page ++ sel) (by rw [List.length_append]; omega), List.append_assoc]

/-! ## The time range of the traces -/

/-- The finder's range of the traces, which is used when both of its milliseconds are positive. -/
def InTraces (traceRange : Option (Nat × Nat)) (t : Nat) : Prop :=
  ∀ range ∈ traceRange, 0 < range.1 / 10 ^ 6 → 0 < range.2 / 10 ^ 6 →
    range.1 / 10 ^ 6 * 10 ^ 6 ≤ t ∧ t < range.2 / 10 ^ 6 * 10 ^ 6

instance (traceRange : Option (Nat × Nat)) (t : Nat) : Decidable (InTraces traceRange t) :=
  inferInstanceAs (Decidable (∀ range ∈ traceRange, _))

/-- The rows of a window in the range of the traces. -/
def keptRows (ts : R → Nat) (rows : List R) (traceRange : Option (Nat × Nat)) (w : TimeRange) :
    List R :=
  (windowRows ts rows w).filter fun r => decide (InTraces traceRange (ts r))

/-- Clamping the window leaves those rows. -/
theorem keptRows_eq_clamped (rows : List R) (traceRange : Option (Nat × Nat)) (w : TimeRange) :
    match clampToTraces traceRange w with
    | none => keptRows ts rows traceRange w = []
    | some c => keptRows ts rows traceRange w = windowRows ts rows c := by
  unfold clampToTraces
  cases traceRange with
  | none => simp [keptRows, InTraces]
  | some range =>
    obtain ⟨lo, hi⟩ := range
    have hin : ∀ t, InTraces (some (lo, hi)) t ↔ (0 < lo / 1000000 → 0 < hi / 1000000 →
        lo / 1000000 * 1000000 ≤ t ∧ t < hi / 1000000 * 1000000) := by
      intro t
      simp [InTraces]
    simp only
    by_cases hpos : 0 < lo / 1000000 ∧ 0 < hi / 1000000
    · by_cases hout : w.toMs < lo / 1000000 ∨ hi / 1000000 < w.fromMs
      · rw [if_pos hpos, if_pos hout]
        refine List.filter_eq_nil_iff.2 fun r hr => ?_
        have hwindow := (List.mem_filter.1 hr).2
        simp only [Bool.and_eq_true, decide_eq_true_eq] at hwindow
        rw [decide_eq_true_eq, hin]
        intro hrange
        have := hrange hpos.1 hpos.2
        omega
      · rw [if_pos hpos, if_neg hout]
        simp only [keptRows, windowRows, List.filter_filter]
        refine List.filter_congr fun r _ => Bool.eq_iff_iff.2 ?_
        simp only [Bool.and_eq_true, decide_eq_true_eq, hin, hpos.1, hpos.2, true_implies]
        split_ifs <;> omega
    · rw [if_neg hpos]
      refine List.filter_eq_self.2 fun r _ => ?_
      rw [decide_eq_true_eq, hin]
      intro h1 h2
      exact absurd ⟨h1, h2⟩ hpos

variable {traceRange : Option (Nat × Nat)}

/-- A row that is kept comes from the clamped window. -/
theorem exists_clamped_of_mem_keptRows {a : R} (ha : a ∈ keptRows ts rows traceRange w) :
    ∃ c, clampToTraces traceRange w = some c ∧ a ∈ windowRows ts rows c := by
  have hclamped := @keptRows_eq_clamped R ts rows traceRange w
  cases hc : clampToTraces traceRange w with
  | none =>
    rw [hc] at hclamped
    simp only at hclamped
    rw [hclamped] at ha
    cases ha
  | some c =>
    rw [hc] at hclamped
    simp only at hclamped
    exact ⟨c, rfl, hclamped ▸ ha⟩

/-- A page: the first rows that are kept of its window, and the millisecond of the last one when it
is full. -/
theorem executeWindowList_eq {rounds : Nat} (hrounds : 24 ≤ rounds)
    {build : Nat → Nat → Nat → List R} (hbuild : BuildsFrom ts rows build) {q : ListRequest}
    (hrows : Ordered q.isAsc ts rows) (hlimit : 0 < q.limit) (hoffset : q.offset = 0)
    {cursor : String} (hw : cursorWindow q.isAsc q.window cursor = w)
    (hread : ∀ c ∈ clampToTraces q.traceRange w, Readable c) :
    executeWindowList rounds ts build q cursor =
      some ((keptRows ts rows q.traceRange w).take q.limit,
        match ((keptRows ts rows q.traceRange w).take q.limit).getLast? with
        | some last =>
          if q.limit ≤ (keptRows ts rows q.traceRange w).length then
            encodeCursor (ts last / 10 ^ 6 : Nat) else ""
        | none => "") := by
  have hclamped := @keptRows_eq_clamped R ts rows q.traceRange w
  unfold executeWindowList
  rw [if_neg (by omega), hw]
  cases hc : clampToTraces q.traceRange w with
  | none =>
    rw [hc] at hclamped
    simp only at hclamped
    simp [hclamped]
  | some c =>
    rw [hc] at hclamped
    simp only at hclamped
    obtain ⟨rs, hrs, hbuckets⟩ := makeBuckets_readable hrounds (hread c hc)
    have hpage := @readBuckets_eq _ _ _ _ hbuild q.limit
      (if q.isAsc then rs.reverse else rs) [] hlimit
    rw [flatMap_buckets hrows hbuckets, ← hclamped] at hpage
    simp only [List.length_nil, Nat.sub_zero, List.nil_append] at hpage
    simp only [hrs, Option.map_some, hoffset, Nat.add_zero, hpage]
    congr 2
    cases ((keptRows ts rows q.traceRange w).take q.limit).getLast? with
    | none => rfl
    | some last =>
      simp only [List.length_take]
      by_cases hfull : q.limit ≤ (keptRows ts rows q.traceRange w).length
      · rw [if_pos hfull, if_pos (Nat.min_eq_left hfull)]
      · rw [if_neg hfull, if_neg (by omega)]

/-! ## Page edges -/

/-- The row `b` lies in the window that the cursor of the row `a` asks for. -/
def Beyond (isAsc : Bool) (ts : R → Nat) (a b : R) : Prop :=
  if isAsc then ts a / 10 ^ 6 < ts b / 10 ^ 6 else ts b / 10 ^ 6 + 1 < ts a / 10 ^ 6

instance (isAsc : Bool) (ts : R → Nat) (a b : R) : Decidable (Beyond isAsc ts a b) := by
  unfold Beyond
  infer_instance

/-- Every page begins beyond the last row of the page before it. -/
def EdgesApart (isAsc : Bool) (ts : R → Nat) (limit : Nat) (rows : List R) : Prop :=
  ∀ n a b, 0 < n → rows[n * limit - 1]? = some a → rows[n * limit]? = some b → Beyond isAsc ts a b

theorem not_beyond_of_mem_take (hrows : Ordered isAsc ts rows) {n : Nat} {a : R}
    (ha : rows[n]? = some a) : ∀ r ∈ rows.take (n + 1), ¬ Beyond isAsc ts a r := by
  intro r hr
  obtain ⟨m, hm, rfl⟩ := List.mem_take_iff_getElem.1 hr
  obtain ⟨hn, rfl⟩ := List.getElem?_eq_some_iff.1 ha
  have hle : m ≤ n := by omega
  unfold Beyond
  rcases Nat.lt_or_eq_of_le hle with hlt | rfl
  · have hord := List.pairwise_iff_getElem.1 hrows m n (by omega) hn hlt
    cases isAsc with
    | true =>
      simp only [if_true] at hord ⊢
      have := Nat.div_le_div_right (c := 10 ^ 6) hord
      omega
    | false =>
      simp only [Bool.false_eq_true, if_false] at hord ⊢
      have := Nat.div_le_div_right (c := 10 ^ 6) hord
      omega
  · cases isAsc <;> simp

/-- Rows behind one that is beyond `a` are beyond `a` as well. -/
theorem beyond_of_mem_drop (hrows : Ordered isAsc ts rows) {n : Nat} {a b : R}
    (hb : rows[n]? = some b) (hab : Beyond isAsc ts a b) :
    ∀ r ∈ rows.drop n, Beyond isAsc ts a r := by
  intro r hr
  obtain ⟨m, hm, rfl⟩ := List.mem_drop_iff_getElem.1 hr
  obtain ⟨hn, rfl⟩ := List.getElem?_eq_some_iff.1 hb
  unfold Beyond at hab ⊢
  rcases Nat.eq_zero_or_pos m with rfl | hpos
  · exact hab
  · have hord := List.pairwise_iff_getElem.1 hrows n (n + m) hn (by omega) (by omega)
    cases isAsc with
    | true =>
      simp only [if_true] at hord hab ⊢
      have := Nat.div_le_div_right (c := 10 ^ 6) hord
      omega
    | false =>
      simp only [Bool.false_eq_true, if_false] at hord hab ⊢
      have := Nat.div_le_div_right (c := 10 ^ 6) hord
      omega


/-! ## The windows of the pages -/

/-- The windows that paging asks for after the window `w`: one bound is moved. -/
def FollowsFrom (isAsc : Bool) (w w' : TimeRange) : Prop :=
  if isAsc then w.fromMs ≤ w'.fromMs ∧ w'.toMs = w.toMs else w'.fromMs = w.fromMs ∧ w'.toMs ≤ w.toMs

/-- Every window that paging asks for can be read, after it is clamped: the next one, and those
behind the page edges of the rows that are left. -/
def PagesReadable (ts : R → Nat) (q : ListRequest) (w : TimeRange) (left : List R) : Prop :=
  (∀ c ∈ clampToTraces q.traceRange w, Readable c) ∧
    ∀ n a, 0 < n → left[n * q.limit - 1]? = some a →
      ∀ c ∈ clampToTraces q.traceRange (windowBehind q.isAsc q.window (ts a / 10 ^ 6)), Readable c

/-- No range of traces begins before the first millisecond. -/
theorem clampToTraces_of_inTraces {t : Nat} (h : InTraces traceRange t) (ht : t < 10 ^ 6)
    (w : TimeRange) :
    clampToTraces traceRange w = some w := by
  cases traceRange with
  | none => rfl
  | some range =>
    unfold clampToTraces
    simp only
    rw [if_neg]
    rintro ⟨hlo, hhi⟩
    have hrange := h range rfl hlo hhi
    omega

section Next

variable {rows : List R} {q : ListRequest} {w : TimeRange} {a : R}

/-- Descending, a readable window behind a row is not that of the first millisecond: its bound would
wrap around. -/
theorem ms_pos_of_readable (ha : a ∈ keptRows ts rows q.traceRange w) (hdesc : q.isAsc = false)
    (hread : ∀ c ∈ clampToTraces q.traceRange (windowBehind q.isAsc q.window (ts a / 10 ^ 6)),
      Readable c) : 0 < ts a / 10 ^ 6 := by
  refine Nat.pos_of_ne_zero fun hzero => ?_
  have htraces : InTraces q.traceRange (ts a) := by simpa using (List.mem_filter.1 ha).2
  have hclamp := clampToTraces_of_inTraces htraces (by omega)
    (windowBehind q.isAsc q.window (ts a / 10 ^ 6))
  have hto := (hread _ hclamp).to_ms
  rw [hzero, hdesc] at hto
  simp only [windowBehind, Bool.false_eq_true, if_false, uint64] at hto
  omega

/-- The window behind a full page. -/
theorem FollowsFrom.next (hfollows : FollowsFrom q.isAsc q.window w)
    (hread : ∀ c ∈ clampToTraces q.traceRange w, Readable c)
    (ha : a ∈ keptRows ts rows q.traceRange w)
    (hbehind : ∀ c ∈ clampToTraces q.traceRange (windowBehind q.isAsc q.window (ts a / 10 ^ 6)),
      Readable c) :
    cursorWindow q.isAsc q.window (encodeCursor (ts a / 10 ^ 6 : Nat)) =
        windowBehind q.isAsc q.window (ts a / 10 ^ 6) ∧
      FollowsFrom q.isAsc q.window (windowBehind q.isAsc q.window (ts a / 10 ^ 6)) ∧
      windowRows ts rows (windowBehind q.isAsc q.window (ts a / 10 ^ 6)) =
        (windowRows ts rows w).filter fun r => decide (Beyond q.isAsc ts a r) := by
  obtain ⟨c, hc, hac⟩ := exists_clamped_of_mem_keptRows ha
  have hinc := (List.mem_filter.1 hac).2
  have hinw := (List.mem_filter.1 (List.mem_filter.1 ha).1).2
  simp only [Bool.and_eq_true, decide_eq_true_eq] at hinc hinw
  have hlt : c.toMs < 10 ^ 13 := by
    have := (hread c hc).to_ms
    omega
  have hpos : q.isAsc = false → 0 < ts a / 10 ^ 6 := fun hdesc =>
    ms_pos_of_readable ha hdesc hbehind
  have huint : q.isAsc = false →
      uint64 (((ts a / 10 ^ 6 : Nat) : Int) - 1) = ts a / 10 ^ 6 - 1 := by
    intro hdesc
    have := hpos hdesc
    unfold uint64
    omega
  unfold FollowsFrom at hfollows ⊢
  cases hasc : q.isAsc with
  | true =>
    rw [hasc] at hfollows
    simp only [if_true] at hfollows
    refine ⟨cursorWindow_encodeCursor true (by omega) (by omega) (by omega), ?_, ?_⟩
    · simp only [windowBehind, if_true, and_true]
      omega
    · unfold windowRows
      rw [List.filter_filter]
      refine List.filter_congr fun r _ => Bool.eq_iff_iff.2 ?_
      simp only [windowBehind, Beyond, if_true, Bool.and_eq_true, decide_eq_true_eq]
      omega
  | false =>
    rw [hasc] at hfollows
    simp only [Bool.false_eq_true, if_false] at hfollows
    have hone := hpos hasc
    have hto := huint hasc
    refine ⟨cursorWindow_encodeCursor false (by omega) (by omega) (by omega), ?_, ?_⟩
    · simp only [windowBehind, Bool.false_eq_true, if_false, true_and, hto]
      omega
    · unfold windowRows
      rw [List.filter_filter]
      refine List.filter_congr fun r _ => Bool.eq_iff_iff.2 ?_
      simp only [windowBehind, Beyond, Bool.false_eq_true, if_false, Bool.and_eq_true,
        decide_eq_true_eq, hto]
      omega

theorem keptRows_next
    (hrows : windowRows ts rows (windowBehind q.isAsc q.window (ts a / 10 ^ 6)) =
      (windowRows ts rows w).filter fun r => decide (Beyond q.isAsc ts a r)) :
    keptRows ts rows q.traceRange (windowBehind q.isAsc q.window (ts a / 10 ^ 6)) =
      (keptRows ts rows q.traceRange w).filter fun r => decide (Beyond q.isAsc ts a r) := by
  rw [keptRows, hrows, keptRows, List.filter_filter, List.filter_filter]
  exact List.filter_congr fun r _ => Bool.and_comm _ _

/-- Among the rows behind the first page, the page edges are the later ones. -/
theorem getElem?_drop_edge {limit n : Nat} (hlimit : 0 < limit) (hn : 0 < n) (left : List R) :
    (left.drop limit)[n * limit - 1]? = left[(n + 1) * limit - 1]? := by
  have hpos : 0 < n * limit := Nat.mul_pos hn hlimit
  rw [List.getElem?_drop, Nat.add_mul]
  congr 1
  omega

theorem PagesReadable.next {left : List R} (hlimit : 0 < q.limit)
    (h : PagesReadable ts q w left) (ha : left[q.limit - 1]? = some a) :
    PagesReadable ts q (windowBehind q.isAsc q.window (ts a / 10 ^ 6)) (left.drop q.limit) := by
  refine ⟨h.2 1 a one_pos (by simpa using ha), fun n b hn hb => ?_⟩
  rw [getElem?_drop_edge hlimit hn] at hb
  exact h.2 (n + 1) b (Nat.succ_pos n) hb

end Next

theorem edgesApart_of_length_le {limit : Nat} (h : rows.length ≤ limit) :
   EdgesApart isAsc ts limit rows := by
  intro n a b hn _ hb
  obtain ⟨hlt, -⟩ := List.getElem?_eq_some_iff.1 hb
  have hle : limit ≤ n * limit := Nat.le_mul_of_pos_left limit hn
  omega

/-- The edges of the rows behind the first page are the later edges. -/
theorem edgesApart_drop_iff {limit : Nat} (hlimit : 0 < limit) {a b : R}
    (ha : rows[limit - 1]? = some a) (hb : rows[limit]? = some b) :
    EdgesApart isAsc ts limit rows ↔
      Beyond isAsc ts a b ∧ EdgesApart isAsc ts limit (rows.drop limit) := by
  constructor
  · intro h
    refine ⟨h 1 a b one_pos (by simpa using ha) (by simpa using hb), fun n x y hn hx hy => ?_⟩
    rw [getElem?_drop_edge hlimit hn] at hx
    rw [List.getElem?_drop] at hy
    refine h (n + 1) x y (by omega) hx ?_
    rwa [Nat.add_mul, Nat.one_mul, Nat.add_comm]
  · rintro ⟨hab, h⟩ n x y hn hx hy
    obtain ⟨m, rfl⟩ : ∃ m, n = m + 1 := ⟨n - 1, by omega⟩
    rcases Nat.eq_zero_or_pos m with rfl | hm
    · rw [Nat.zero_add, Nat.one_mul] at hx hy
      rw [ha] at hx
      rw [hb] at hy
      rwa [← Option.some.inj hx, ← Option.some.inj hy]
    · refine h m x y hm ?_ ?_
      · rwa [getElem?_drop_edge hlimit hm]
      · rw [List.getElem?_drop]
        rwa [Nat.add_mul, Nat.one_mul, Nat.add_comm] at hy


/-- Rows in order: those beyond the last row of the page are the rows behind the page, when the
first of them is. -/
theorem filter_beyond_eq_drop {limit : Nat} (hlimit : 0 < limit) {left : List R}
    (hleft : Ordered isAsc ts left) {a : R} (ha : left[limit - 1]? = some a)
    (hb : ∀ b, left[limit]? = some b → Beyond isAsc ts a b) :
    left.filter (fun r => decide (Beyond isAsc ts a r)) = left.drop limit := by
  have htake := not_beyond_of_mem_take hleft ha
  rw [Nat.sub_add_cancel hlimit] at htake
  have hdrop : ∀ r ∈ left.drop limit, Beyond isAsc ts a r := by
    cases hrest : left[limit]? with
    | none =>
      rw [List.drop_eq_nil_of_le (List.getElem?_eq_none_iff.1 hrest)]
      exact fun r hr => absurd hr List.not_mem_nil
    | some b => exact beyond_of_mem_drop hleft hrest (hb b hrest)
  conv_lhs => rw [← List.take_append_drop limit left, List.filter_append]
  rw [List.filter_eq_nil_iff.2 fun r hr => by simpa using htake r hr,
    List.filter_eq_self.2 fun r hr => by simpa using hdrop r hr, List.nil_append]

/-! ## Following the cursors -/

section Cursors

variable {rounds : Nat} {rows : List R} {build : Nat → Nat → Nat → List R} {q : ListRequest}
  {w : TimeRange} {cursor : String}

/-- One call: a page, and the pages behind it if the page is full. -/
theorem readPages_succ (hrounds : 24 ≤ rounds) (hbuild : BuildsFrom ts rows build)
    (hrows : Ordered q.isAsc ts rows) (hlimit : 0 < q.limit) (hoffset : q.offset = 0)
    (hw : cursorWindow q.isAsc q.window cursor = w)
    (hread : ∀ c ∈ clampToTraces q.traceRange w, Readable c) (pages : Nat) :
    readPages rounds ts build q (pages + 1) cursor =
      match (keptRows ts rows q.traceRange w)[q.limit - 1]? with
      | none => some [keptRows ts rows q.traceRange w]
      | some a =>
        (readPages rounds ts build q pages (encodeCursor (ts a / 10 ^ 6 : Nat))).map fun rest =>
          (keptRows ts rows q.traceRange w).take q.limit :: rest := by
  rw [readPages, executeWindowList_eq hrounds hbuild hrows hlimit hoffset hw hread]
  generalize keptRows ts rows q.traceRange w = left
  simp only
  cases ha : left[q.limit - 1]? with
  | none =>
    have hshort : left.length ≤ q.limit - 1 := List.getElem?_eq_none_iff.1 ha
    have hnot : ¬ q.limit ≤ left.length := by omega
    rw [List.take_of_length_le (by omega)]
    cases left.getLast? <;> simp [hnot]
  | some a =>
    obtain ⟨hlen, -⟩ := List.getElem?_eq_some_iff.1 ha
    have hlast : (left.take q.limit).getLast? = some a := by
      rw [List.getLast?_eq_getElem?, List.length_take, Nat.min_eq_left (by omega),
        List.getElem?_take_of_lt (by omega), ha]
    simp only [hlast, if_pos (show q.limit ≤ left.length by omega),
      if_neg (encodeCursor_ne_empty _)]

/-- The first row of the pages is one that the window keeps. -/
theorem mem_keptRows_of_head (hrounds : 24 ≤ rounds) (hbuild : BuildsFrom ts rows build)
    (hrows : Ordered q.isAsc ts rows) (hlimit : 0 < q.limit) (hoffset : q.offset = 0)
    (hw : cursorWindow q.isAsc q.window cursor = w)
    (hread : ∀ c ∈ clampToTraces q.traceRange w, Readable c) {pages : Nat} {ps : List (List R)}
    (hps : readPages rounds ts build q pages cursor = some ps) {b : R}
    (hb : ps.flatten[0]? = some b) : b ∈ keptRows ts rows q.traceRange w := by
  cases pages with
  | zero => cases hps
  | succ pages =>
    rw [readPages_succ hrounds hbuild hrows hlimit hoffset hw hread] at hps
    cases ha : (keptRows ts rows q.traceRange w)[q.limit - 1]? with
    | none =>
      rw [ha] at hps
      obtain rfl := Option.some.inj hps
      rw [List.flatten_singleton] at hb
      exact List.mem_of_getElem? hb
    | some a =>
      rw [ha] at hps
      obtain ⟨rest, -, rfl⟩ := Option.map_eq_some_iff.1 hps
      obtain ⟨hlen, -⟩ := List.getElem?_eq_some_iff.1 ha
      rw [List.flatten_cons, List.getElem?_append_left (by rw [List.length_take]; omega)] at hb
      exact List.mem_of_mem_take (List.mem_of_getElem? hb)

/-- Where every edge of the kept rows is apart, following the cursors returns these rows. -/
theorem readPages_of_edgesApart (hrounds : 24 ≤ rounds) (hbuild : BuildsFrom ts rows build)
    (hrows : Ordered q.isAsc ts rows) (hlimit : 0 < q.limit) (hoffset : q.offset = 0)
    (pages : Nat) : ∀ {w : TimeRange} {cursor : String},
      cursorWindow q.isAsc q.window cursor = w → FollowsFrom q.isAsc q.window w →
      PagesReadable ts q w (keptRows ts rows q.traceRange w) →
      EdgesApart q.isAsc ts q.limit (keptRows ts rows q.traceRange w) →
      (keptRows ts rows q.traceRange w).length < pages →
      ∃ ps, readPages rounds ts build q pages cursor = some ps ∧
        ps.flatten = keptRows ts rows q.traceRange w := by
  induction pages with
  | zero => exact fun _ _ _ _ h => absurd h (Nat.not_lt_zero _)
  | succ pages ih =>
    intro w cursor hw hfollows hread hedges hpages
    rw [readPages_succ hrounds hbuild hrows hlimit hoffset hw hread.1]
    cases ha : (keptRows ts rows q.traceRange w)[q.limit - 1]? with
    | none => exact ⟨_, rfl, List.flatten_singleton⟩
    | some a =>
      obtain ⟨hlen, hget⟩ := List.getElem?_eq_some_iff.1 ha
      have hmem : a ∈ keptRows ts rows q.traceRange w := hget ▸ List.getElem_mem hlen
      have hordered : Ordered q.isAsc ts (keptRows ts rows q.traceRange w) :=
        hrows.sublist (List.filter_sublist.trans List.filter_sublist)
      have hnext := hread.next hlimit ha
      obtain ⟨hcursor, hfollows', hwindow⟩ := hfollows.next hread.1 hmem hnext.1
      have hkept := keptRows_next hwindow
      rw [filter_beyond_eq_drop hlimit hordered ha fun b hb =>
        hedges 1 a b one_pos (by simpa using ha) (by simpa using hb)] at hkept
      have hedges' : EdgesApart q.isAsc ts q.limit
          ((keptRows ts rows q.traceRange w).drop q.limit) := by
        cases hb : (keptRows ts rows q.traceRange w)[q.limit]? with
        | none =>
          refine edgesApart_of_length_le ?_
          rw [List.drop_eq_nil_of_le (List.getElem?_eq_none_iff.1 hb)]
          exact Nat.zero_le _
        | some b => exact ((edgesApart_drop_iff hlimit ha hb).1 hedges).2
      rw [← hkept] at hnext hedges'
      obtain ⟨rest, hrest, hflat⟩ := ih hcursor hfollows' hnext hedges'
        (by rw [hkept, List.length_drop]; omega)
      refine ⟨(keptRows ts rows q.traceRange w).take q.limit :: rest, ?_, ?_⟩
      · simp only [hrest, Option.map_some]
      · rw [List.flatten_cons, hflat, hkept, List.take_append_drop]

/-- A list that begins like its filtered part: the filtered part goes on with what is left. -/
theorem drop_filter_of_take_eq {p : R → Bool} {n : Nat} {l : List R}
    (hlen : n ≤ (l.filter p).length) (htake : l.take n = (l.filter p).take n) :
    (l.filter p).drop n = (l.drop n).filter p := by
  have hpage : (l.take n).filter p = l.take n := by
    rw [htake]
    exact List.filter_eq_self.2 fun r hr => (List.mem_filter.1 (List.mem_of_mem_take hr)).2
  have hsplit : l.filter p = (l.filter p).take n ++ (l.drop n).filter p := by
    conv_lhs => rw [← List.take_append_drop n l, List.filter_append, hpage, htake]
  conv_lhs => rw [hsplit]
  exact List.drop_left' (by rw [List.length_take]; omega)

/-- Pages that hold the rows of the window: all of these are kept, and every edge is apart. -/
theorem edgesApart_of_readPages (hrounds : 24 ≤ rounds) (hbuild : BuildsFrom ts rows build)
    (hrows : Ordered q.isAsc ts rows) (hlimit : 0 < q.limit) (hoffset : q.offset = 0)
    (pages : Nat) : ∀ {w : TimeRange} {cursor : String} {ps : List (List R)},
      cursorWindow q.isAsc q.window cursor = w → FollowsFrom q.isAsc q.window w →
      PagesReadable ts q w (keptRows ts rows q.traceRange w) →
      readPages rounds ts build q pages cursor = some ps → ps.flatten = windowRows ts rows w →
      keptRows ts rows q.traceRange w = windowRows ts rows w ∧
        EdgesApart q.isAsc ts q.limit (windowRows ts rows w) := by
  induction pages with
  | zero => exact fun _ _ _ h => absurd h (by simp [readPages])
  | succ pages ih =>
    intro w cursor ps hw hfollows hread hps hflat
    rw [readPages_succ hrounds hbuild hrows hlimit hoffset hw hread.1] at hps
    cases ha : (keptRows ts rows q.traceRange w)[q.limit - 1]? with
    | none =>
      rw [ha] at hps
      obtain rfl := Option.some.inj hps
      rw [List.flatten_singleton] at hflat
      have hshort := List.getElem?_eq_none_iff.1 ha
      exact ⟨hflat, edgesApart_of_length_le (by rw [← hflat]; omega)⟩
    | some a =>
      rw [ha] at hps
      obtain ⟨rest, hrest, rfl⟩ := Option.map_eq_some_iff.1 hps
      obtain ⟨hlen, hget⟩ := List.getElem?_eq_some_iff.1 ha
      have hmem : a ∈ keptRows ts rows q.traceRange w := hget ▸ List.getElem_mem hlen
      have hordered : Ordered q.isAsc ts (windowRows ts rows w) :=
        hrows.sublist List.filter_sublist
      -- the rows of the window begin with those of the page, which are all kept
      have hpage : ((keptRows ts rows q.traceRange w).take q.limit).length = q.limit := by
        rw [List.length_take]
        omega
      rw [List.flatten_cons] at hflat
      have htake : (windowRows ts rows w).take q.limit =
          (keptRows ts rows q.traceRange w).take q.limit := by
        rw [← hflat, List.take_left' hpage]
      have hdrop : (windowRows ts rows w).drop q.limit = rest.flatten := by
        rw [← hflat, List.drop_left' hpage]
      have ha' : (windowRows ts rows w)[q.limit - 1]? = some a := by
        rw [← List.getElem?_take_of_lt (show q.limit - 1 < q.limit by omega), htake,
          List.getElem?_take_of_lt (by omega), ha]
      have hkeptDrop : (keptRows ts rows q.traceRange w).drop q.limit =
          ((windowRows ts rows w).drop q.limit).filter fun r =>
            decide (InTraces q.traceRange (ts r)) :=
        drop_filter_of_take_eq (Nat.le_of_pred_lt hlen) htake
      have hnext := hread.next hlimit ha
      obtain ⟨hcursor, hfollows', hwindow⟩ := hfollows.next hread.1 hmem hnext.1
      have hkept := keptRows_next hwindow
      -- the first row behind the page is on the next one, and so beyond the page
      have hbeyond : ∀ b, (windowRows ts rows w)[q.limit]? = some b →
          Beyond q.isAsc ts a b := by
        intro b hb
        have hhead : rest.flatten[0]? = some b := by
          rw [← hdrop, List.getElem?_drop, Nat.add_zero, hb]
        have hmem' := mem_keptRows_of_head hrounds hbuild hrows hlimit hoffset hcursor hnext.1
          hrest hhead
        rw [hkept] at hmem'
        simpa using (List.mem_filter.1 hmem').2
      rw [filter_beyond_eq_drop hlimit hordered ha' hbeyond] at hwindow
      have hkept' : keptRows ts rows q.traceRange
          (windowBehind q.isAsc q.window (ts a / 10 ^ 6)) =
            (keptRows ts rows q.traceRange w).drop q.limit := by
        rw [hkeptDrop, keptRows, hwindow]
      rw [← hkept'] at hnext
      obtain ⟨hall, hedges⟩ := ih hcursor hfollows' hnext hrest (by rw [hwindow, hdrop])
      rw [hkept', hwindow] at hall
      rw [hwindow] at hedges
      refine ⟨?_, ?_⟩
      · rw [← List.take_append_drop q.limit (keptRows ts rows q.traceRange w), ← htake, hall,
          List.take_append_drop]
      · cases hb : (windowRows ts rows w)[q.limit]? with
        | none => exact edgesApart_of_length_le (List.getElem?_eq_none_iff.1 hb)
        | some b => exact (edgesApart_drop_iff hlimit ha' hb).2 ⟨hbeyond b hb, hedges⟩

end Cursors

/-- Following the cursors ends, and returns every row of the window exactly once and in order, for
any number of pages beyond the number of rows. -/
def ReadsExactly (rounds : Nat) (ts : R → Nat) (rows : List R)
    (build : Nat → Nat → Nat → List R) (q : ListRequest) : Prop :=
  ∀ pages, (windowRows ts rows q.window).length < pages →
    ∃ ps, readPages rounds ts build q pages "" = some ps ∧
      ps.flatten = windowRows ts rows q.window

/-- Paging through a window whose pages can be read returns its rows exactly when all of them are in
the time range of the traces and every page edge falls between rows that the cursor keeps apart. -/
theorem readPages_exact_iff {rounds : Nat} (hrounds : 24 ≤ rounds) (rows : List R)
    (build : Nat → Nat → Nat → List R) (hbuild : BuildsFrom ts rows build) (q : ListRequest)
    (hrows : Ordered q.isAsc ts rows) (hlimit : 0 < q.limit) (hoffset : q.offset = 0)
    (hread : PagesReadable ts q q.window (keptRows ts rows q.traceRange q.window)) :
    ReadsExactly rounds ts rows build q ↔
      (∀ r ∈ windowRows ts rows q.window, InTraces q.traceRange (ts r)) ∧
        EdgesApart q.isAsc ts q.limit (windowRows ts rows q.window) := by
  have hfollows : FollowsFrom q.isAsc q.window q.window := by
    unfold FollowsFrom
    cases q.isAsc <;> simp
  have hall : keptRows ts rows q.traceRange q.window = windowRows ts rows q.window ↔
      ∀ r ∈ windowRows ts rows q.window, InTraces q.traceRange (ts r) := by
    rw [keptRows, List.filter_eq_self]
    simp only [decide_eq_true_eq]
  constructor
  · intro h
    obtain ⟨ps, hps, hflat⟩ := h _ (Nat.lt_succ_self _)
    obtain ⟨hkept, hedges⟩ := edgesApart_of_readPages hrounds hbuild hrows hlimit hoffset _
      (cursorWindow_empty _ _) hfollows hread hps hflat
    exact ⟨hall.1 hkept, hedges⟩
  · rintro ⟨htraces, hedges⟩ pages hpages
    have hkept := hall.2 htraces
    rw [← hkept] at hedges hpages ⊢
    exact readPages_of_edgesApart hrounds hbuild hrows hlimit hoffset pages
      (cursorWindow_empty _ _) hfollows hread hedges hpages

/-! ## Recent windows -/

/-- A window in epoch milliseconds: from 2001 to 2286, and no longer than its start, less an hour. -/
structure EpochWindow (w : TimeRange) : Prop where
  from_gt : 10 ^ 12 < w.fromMs
  from_le : w.fromMs ≤ w.toMs
  to_lt : w.toMs < 10 ^ 13
  not_long : w.toMs + 3600000 ≤ 2 * w.fromMs

/-- A bucket is as long as all before it and an hour, so none reaches back beyond the epoch. -/
theorem noOverrun_of_not_long {start stop : Nat} (h : stop + 3600000 ≤ 2 * start) :
    NoOverrun (start * 10 ^ 6) (stop * 10 ^ 6) := by
  intro k hk
  have htotal := totalBuckets_succ k
  have hnext := nextBucket_eq k
  unfold hourNanos at *
  omega

theorem readable_clamped {w c : TimeRange} (hfrom : 10 ^ 12 ≤ w.fromMs ∧ w.fromMs < 10 ^ 13)
    (hto : 10 ^ 12 ≤ w.toMs ∧ w.toMs < 10 ^ 13) (hlong : w.toMs + 3600000 ≤ 2 * w.fromMs)
    (hc : c ∈ clampToTraces traceRange w) :
    Readable c := by
  have hbounds : w.fromMs ≤ c.fromMs ∧ c.toMs ≤ w.toMs ∧ c.fromMs < 10 ^ 13 ∧
      10 ^ 12 ≤ c.toMs := by
    unfold clampToTraces at hc
    cases traceRange with
    | none =>
      obtain rfl := Option.some.inj hc
      omega
    | some range =>
      simp only [Option.mem_def] at hc
      split_ifs at hc
      all_goals
        obtain rfl := Option.some.inj hc
        refine ⟨?_, ?_, ?_, ?_⟩ <;> try simp only
      all_goals omega
  exact ⟨.inr (by omega), .inr (by omega), noOverrun_of_not_long (by omega)⟩

/-- Every page of a recent window can be read. -/
theorem EpochWindow.pagesReadable {q : ListRequest} (hw : EpochWindow q.window) (rows : List R) :
    PagesReadable ts q q.window (keptRows ts rows q.traceRange q.window) := by
  obtain ⟨h1, h2, h3, h4⟩ := hw
  refine ⟨fun c hc => readable_clamped ⟨h1.le, by omega⟩ ⟨by omega, h3⟩ h4 hc, ?_⟩
  intro n a _ ha c hc
  have hin := (List.mem_filter.1 (List.mem_filter.1 (List.mem_of_getElem? ha)).1).2
  simp only [Bool.and_eq_true, decide_eq_true_eq] at hin
  cases hasc : q.isAsc with
  | true =>
    simp only [hasc, windowBehind, if_true] at hc
    refine readable_clamped ?_ ?_ ?_ hc <;> simp only <;> omega
  | false =>
    have huint : uint64 (((ts a / 10 ^ 6 : Nat) : Int) - 1) = ts a / 10 ^ 6 - 1 := by
      unfold uint64
      omega
    simp only [hasc, windowBehind, Bool.false_eq_true, if_false, huint] at hc
    refine readable_clamped ?_ ?_ ?_ hc <;> simp only <;> omega

end Pages

/-- Ascending, one row a page. -/
def oneRowPages : ListRequest := ⟨true, ⟨1700000000000, 1700000000100⟩, 1, 0, none⟩

/-- The statements of a store of timestamps. -/
def buildTimestamps (rows : List Nat) (fromMs toMs limit : Nat) : List Nat :=
  (windowRows id rows ⟨fromMs, toMs⟩).take limit

/-- Two rows in different milliseconds are both returned. -/
theorem readPages_exact_iff_apart :
    ReadsExactly 24 id [1700000000005000000, 1700000000006000000]
        (buildTimestamps [1700000000005000000, 1700000000006000000]) oneRowPages ↔
      (∀ r ∈ windowRows id [1700000000005000000, 1700000000006000000]
          ⟨1700000000000, 1700000000100⟩, InTraces none (id r)) ∧
        EdgesApart true id 1 (windowRows id [1700000000005000000, 1700000000006000000]
          ⟨1700000000000, 1700000000100⟩) :=
  readPages_exact_iff (Nat.le_refl 24) _ _ (fun _ _ _ => rfl) oneRowPages
    (by unfold Ordered oneRowPages; decide) (by decide) rfl
    (EpochWindow.pagesReadable ⟨by decide, by decide, by decide, by decide⟩ _)

/-- Two rows in one millisecond: the second is on no page. -/
theorem row_lost_at_page_edge :
    ¬ ∀ (rows : List Nat) (build : Nat → Nat → Nat → List Nat) (q : ListRequest),
      BuildsFrom id rows build → Ordered q.isAsc id rows → 0 < q.limit → q.offset = 0 →
      q.window.fromMs ≤ q.window.toMs → ReadsExactly 24 id rows build q := by
  intro h
  obtain ⟨ps, hps, hflat⟩ := h [1700000000005000000, 1700000000005000001]
    (buildTimestamps [1700000000005000000, 1700000000005000001]) oneRowPages (fun _ _ _ => rfl)
    (by unfold Ordered oneRowPages; decide) (by decide) rfl (by decide) 3 (by decide)
  have hpages : readPages 24 id (buildTimestamps [1700000000005000000, 1700000000005000001])
      oneRowPages 3 "" = some [[1700000000005000000], []] := by
    decide +kernel
  rw [hpages, Option.some.injEq] at hps
  subst hps
  exact absurd hflat (by decide)

end Signoz.Querier
