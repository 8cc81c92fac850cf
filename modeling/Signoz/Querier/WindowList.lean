import Signoz.Lib.Base64
import Signoz.Querier.BucketCache

/-!
# Raw lists, page by page

`executeWindowList` of `builder_query.go` with `makeBuckets` of `list_range.go`: the rows of a window
are read bucket by bucket until the page is full, and a full page comes with a cursor, the
millisecond of its last row, from which the next request moves one bound of the window.

The rows are of any type with a timestamp in nanoseconds. Building and running the statement of one
bucket is the parameter `build fromMs toMs limit`; the trace time range the finder reports for a
filter on trace ids is part of the request.
-/

namespace Signoz.Querier

open Lib

/-! ## Cursors -/

/-- `strconv.FormatInt` in base 10. -/
def formatInt (t : Int) : List Char :=
  if t < 0 then '-' :: Nat.toDigits 10 t.natAbs else Nat.toDigits 10 t.natAbs

/-- `strconv.ParseInt` in base 10 with 64 bits. -/
def parseInt (cs : List Char) : Option Int :=
  let neg := cs.head? = some '-'
  let digits := if neg ∨ cs.head? = some '+' then cs.tail else cs
  if digits = [] ∨ ¬ digits.all Char.isDigit then none
  else
    let n := Nat.ofDigitChars 10 digits 0
    if neg then (if n ≤ 2 ^ 63 then some (-n) else none) else (if n < 2 ^ 63 then some n else none)

/-- `encodeCursor`. -/
def encodeCursor (tsMilli : Int) : String :=
  String.ofList (Base64.encode ((formatInt tsMilli).map Char.toNat))

/-- `decodeCursor`. -/
def decodeCursor (cur : String) : Option Int :=
  (Base64.decode cur.toList).bind fun bytes => parseInt (bytes.map Char.ofNat)

/-- `strings.TrimSpace`. -/
def trimSpace (s : String) : String :=
  String.ofList ((s.toList.dropWhile Char.isWhitespace).reverse.dropWhile Char.isWhitespace).reverse

/-- Move the bound of the window that the cursor is about. -/
def cursorWindow (isAsc : Bool) (w : TimeRange) (cursor : String) : TimeRange :=
  if trimSpace cursor = "" then w
  else
    match decodeCursor (trimSpace cursor) with
    | none => w
    | some ts =>
      if isAsc then if w.fromMs ≤ uint64 ts then ⟨uint64 (ts + 1), w.toMs⟩ else w
      else if uint64 ts ≤ w.toMs then ⟨w.fromMs, uint64 (ts - 1)⟩ else w

/-! ## Buckets of time -/

/-- One hour in nanoseconds. -/
def hourNanos : Nat := 3600000000000

/-- `ToNanoSecs`: scale an epoch to 19 digits, in `uint64`. -/
def toNanoSecs (epoch : Nat) : Nat :=
  let count := (Nat.toDigits 10 epoch).length
  epoch * (if count ≤ 19 then 10 ^ (19 - count) else 0) % 2 ^ 64

/-- An epoch of 13 digits is taken for milliseconds. -/
theorem toNanoSecs_of_epoch {n : Nat} (h : 10 ^ 12 ≤ n) (h' : n < 10 ^ 13) :
    toNanoSecs n = n * 10 ^ 6 := by
  have hle : (Nat.toDigits 10 n).length ≤ 13 :=
    (Nat.length_toDigits_le_iff (by decide) (by decide)).2 h'
  have hgt : ¬ (Nat.toDigits 10 n).length ≤ 12 := fun h12 =>
    absurd ((Nat.length_toDigits_le_iff (by decide) (by decide)).1 h12) (Nat.not_lt.2 h)
  have hlen : (Nat.toDigits 10 n).length = 13 := by omega
  unfold toNanoSecs
  simp only [hlen, show (13 : Nat) ≤ 19 by decide, if_true]
  omega

structure TsRange where
  fromNS : Nat
  toNS : Nat

/-- The loop of `makeBuckets`, backwards from `curEnd` with buckets that double; `none` when it has
not ended after the given number of rounds. -/
def bucketLoop (startNS : Nat) : Nat → Nat → Nat → Option (List TsRange)
  | 0, _, _ => none
  | n + 1, bucket, curEnd =>
    let curStart := subUint64 curEnd bucket
    let curStart := if curStart < startNS then startNS else curStart
    if curStart = startNS then some [⟨curStart, curEnd⟩]
    else
      (bucketLoop startNS n (bucket * 2 % 2 ^ 64) curStart).map fun out =>
        ⟨curStart, curEnd⟩ :: out

/-- `makeBuckets`. -/
def makeBuckets (rounds start «end» : Nat) : Option (List TsRange) :=
  let startNS := toNanoSecs start
  let endNS := toNanoSecs «end»
  if subUint64 endNS startNS ≤ hourNanos then some [⟨startNS, endNS⟩]
  else bucketLoop startNS rounds hourNanos endNS

/-! ## One page -/

section Page

variable {R : Type}

/-- The rows of one bucket appended to the page: leading rows are dropped while `offsetLeft` is
positive, and the page is not filled beyond `reqLimit`. -/
def appendRows (reqLimit : Nat) : List R → Nat → List R → Nat × List R
  | [], offsetLeft, rows => (offsetLeft, rows)
  | _ :: rest, offsetLeft + 1, rows => appendRows reqLimit rest offsetLeft rows
  | rr :: rest, 0, rows =>
    if reqLimit ≤ (rows ++ [rr]).length then (0, rows ++ [rr])
    else appendRows reqLimit rest 0 (rows ++ [rr])

/-- Read bucket after bucket until the page is full. -/
def readBuckets (build : Nat → Nat → Nat → List R) (reqLimit : Nat) :
    List TsRange → Nat → Nat → List R → List R
  | [], _, _, rows => rows
  | r :: rest, need, offsetLeft, rows =>
    let rawRows := build (r.fromNS / 10 ^ 6) (r.toNS / 10 ^ 6) need
    let p := appendRows reqLimit rawRows offsetLeft rows
    if reqLimit ≤ p.2.length then p.2
    else readBuckets build reqLimit rest (need - rawRows.length) p.1 p.2

/-- What a list request says: its direction, window, limit and offset, and the time range (in
nanoseconds) of the traces its filter names, when the finder has one. -/
structure ListRequest where
  isAsc : Bool
  window : TimeRange
  limit : Nat
  offset : Nat
  traceRange : Option (Nat × Nat)

/-- Clamp the window to the range of the traces; `none` when the two do not overlap. -/
def clampToTraces (traceRange : Option (Nat × Nat)) (w : TimeRange) : Option TimeRange :=
  match traceRange with
  | none => some w
  | some (traceStart, traceEnd) =>
    let traceStartMS := traceStart / 1000000
    let traceEndMS := traceEnd / 1000000
    if 0 < traceStartMS ∧ 0 < traceEndMS then
      if w.toMs < traceStartMS ∨ traceEndMS < w.fromMs then none
      else
        some ⟨if w.fromMs < traceStartMS then traceStartMS else w.fromMs,
          if traceEndMS < w.toMs then traceEndMS else w.toMs⟩
    else some w

/-- `executeWindowList`: the rows of a page and the next cursor. `none` when the buckets are not
made within the given number of rounds. -/
def executeWindowList (rounds : Nat) (ts : R → Nat) (build : Nat → Nat → Nat → List R)
    (q : ListRequest) (cursor : String) : Option (List R × String) :=
  let reqLimit := if q.limit = 0 then 10000 else q.limit
  match clampToTraces q.traceRange (cursorWindow q.isAsc q.window cursor) with
  | none => some ([], "")
  | some w =>
    (makeBuckets rounds w.fromMs w.toMs).map fun buckets =>
      let buckets := if q.isAsc then buckets.reverse else buckets
      let rows := readBuckets build reqLimit buckets (reqLimit + q.offset) q.offset []
      let nextCursor :=
        match rows.getLast? with
        | some last => if rows.length = reqLimit then encodeCursor (ts last / 10 ^ 6 : Nat) else ""
        | none => ""
      (rows, nextCursor)

/-- Request page after page, each with the cursor of the one before, until a page has none; `none`
when pages are left after the given number. -/
def readPages (rounds : Nat) (ts : R → Nat) (build : Nat → Nat → Nat → List R) (q : ListRequest) :
    Nat → String → Option (List (List R))
  | 0, _ => none
  | pages + 1, cursor =>
    match executeWindowList rounds ts build q cursor with
    | none => none
    | some (rows, nextCursor) =>
      if nextCursor = "" then some [rows]
      else (readPages rounds ts build q pages nextCursor).map fun rest => rows :: rest

end Page

end Signoz.Querier
