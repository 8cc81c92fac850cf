import Mathlib.Data.List.Infix
import Signoz.Lib.Runs

/-!
# Raw data export

`exportRawDataForSingleQuery` of `module.go` and the readers of `handler.go` in
`implrawdataexport`: a producer goroutine queries the rows in chunks and sends them on `rowChan`,
its first error on `errChan`, and closes both; the reader selects over the two until it returns.

The error sits in its buffer when `rowChan` closes, so both cases of the `select` can be ready and
either may be chosen. `complete_export` says what a run must avoid for a complete label to be true;
no run gets stuck before both have ended (`export_never_stuck`).
-/

namespace Signoz.RawDataExport

open Lib.Runs

universe u v

variable {α : Type u} {ε : Type v}

def MaxExportBytesLimit : UInt64 := 10 * 1024 * 1024 * 1024
def ChunkSize : Nat := 5000

/-- `QueryRange` where it does not fail: the rows of a fixed list from `offset`. -/
def queryRange (rows : List α) (offset limit : Nat) : List α := (rows.drop offset).take limit

/-! ## State -/

/-- A channel with a buffer of one. -/
structure Channel (α : Type u) where
  buffer : Option α
  closed : Bool

/-- Where the producer goroutine is. -/
inductive Producer (α : Type u) (ε : Type v) where
  /-- At the loop condition, then in `QueryRange`. -/
  | atLoop (rowCount : Nat)
  /-- In the loop over the rows of one chunk. -/
  | sending (rowCount chunkSize newRowsCount : Nat) (pending : List α)
  /-- At `errChan <- err`. -/
  | failing (err : ε)
  /-- At the deferred `close(rowChan)`. -/
  | returning
  /-- At the deferred `close(errChan)`. -/
  | closing
  | finished

/-- Where the reader, `exportRawDataCSV` or `exportRawDataJSONL`, is. -/
inductive Reader (ε : Type v) where
  /-- At the `select`. -/
  | selecting (totalBytes : UInt64)
  | returned (isComplete : Bool) (err : Option ε)

/-- Both goroutines and their channels, with the rows sent and whether a call failed. -/
structure Export (α : Type u) (ε : Type v) where
  producer : Producer α ε
  rowChan : Channel α
  errChan : Channel ε
  reader : Reader ε
  written : List α
  sent : List α
  failed : Bool

def Export.start : Export α ε :=
  ⟨.atLoop 0, ⟨none, false⟩, ⟨none, false⟩, .selecting 0, [], [], false⟩

/-! ## Steps -/

inductive ExportAction (ε : Type v) where
  /-- The loop condition fails. -/
  | loopEnds
  | callReturns
  | callFails (err : ε)
  | sendRow
  /-- The send meets `ctx.Done()`. -/
  | sendTimesOut (err : ε)
  /-- The send meets `doneChan`, which closes when the handler is done. -/
  | sendStopped
  | chunkEnds
  | sendErr
  | closeRowChan
  | closeErrChan
  /-- The reader receives a row and writes it. -/
  | takeRow
  /-- The reader receives a row that it cannot encode or write. -/
  | rowFails (err : ε)
  /-- The reader receives from the closed `rowChan`. -/
  | takeRowsEnd
  | takeErr
  /-- The reader receives `nil` from the closed `errChan`. -/
  | takeErrsEnd

/-- The step function; `size` is what a row adds to `totalBytes`. -/
def exportStep (rows : List α) (rowCountLimit : Nat) (size : α → UInt64) (s : Export α ε) :
    ExportAction ε → Option (Export α ε)
  | .loopEnds =>
    match s.producer with
    | .atLoop rowCount =>
      if rowCount < rowCountLimit then none else some { s with producer := .returning }
    | _ => none
  | .callReturns =>
    match s.producer with
    | .atLoop rowCount =>
      if rowCount < rowCountLimit then
        let chunkSize := min ChunkSize (rowCountLimit - rowCount)
        let newRows := queryRange rows rowCount chunkSize
        some { s with producer := .sending rowCount chunkSize newRows.length newRows }
      else none
    | _ => none
  | .callFails err =>
    match s.producer with
    | .atLoop rowCount =>
      if rowCount < rowCountLimit then
        some { s with producer := .failing err, failed := true }
      else none
    | _ => none
  | .sendRow =>
    match s.producer, s.rowChan.buffer with
    | .sending rowCount chunkSize newRowsCount (row :: pending), none =>
      some
        { s with
          producer := .sending rowCount chunkSize newRowsCount pending
          rowChan := ⟨some row, s.rowChan.closed⟩
          sent := s.sent ++ [row] }
    | _, _ => none
  | .sendTimesOut err =>
    match s.producer with
    | .sending _ _ _ (_ :: _) => some { s with producer := .failing err, failed := true }
    | _ => none
  | .sendStopped =>
    match s.producer, s.reader with
    | .sending _ _ _ (_ :: _), .returned _ _ => some { s with producer := .returning }
    | _, _ => none
  | .chunkEnds =>
    match s.producer with
    | .sending rowCount chunkSize newRowsCount [] =>
      some
        { s with
          producer :=
            if newRowsCount < chunkSize then .returning else .atLoop (rowCount + newRowsCount) }
    | _ => none
  | .sendErr =>
    match s.producer, s.errChan.buffer with
    | .failing err, none =>
      some { s with producer := .returning, errChan := ⟨some err, s.errChan.closed⟩ }
    | _, _ => none
  | .closeRowChan =>
    match s.producer with
    | .returning => some { s with producer := .closing, rowChan := ⟨s.rowChan.buffer, true⟩ }
    | _ => none
  | .closeErrChan =>
    match s.producer with
    | .closing => some { s with producer := .finished, errChan := ⟨s.errChan.buffer, true⟩ }
    | _ => none
  | .takeRow =>
    match s.reader, s.rowChan.buffer with
    | .selecting totalBytes, some row =>
      some
        { s with
          rowChan := ⟨none, s.rowChan.closed⟩
          written := s.written ++ [row]
          reader :=
            if MaxExportBytesLimit < totalBytes + size row then .returned false none
            else .selecting (totalBytes + size row) }
    | _, _ => none
  | .rowFails err =>
    match s.reader, s.rowChan.buffer with
    | .selecting _, some _ =>
      some { s with rowChan := ⟨none, s.rowChan.closed⟩, reader := .returned false (some err) }
    | _, _ => none
  | .takeRowsEnd =>
    match s.reader, s.rowChan with
    | .selecting _, ⟨none, true⟩ => some { s with reader := .returned true none }
    | _, _ => none
  | .takeErr =>
    match s.reader, s.errChan.buffer with
    | .selecting _, some err =>
      some { s with errChan := ⟨none, s.errChan.closed⟩, reader := .returned false (some err) }
    | _, _ => none
  | .takeErrsEnd =>
    match s.reader, s.errChan with
    | .selecting _, ⟨none, true⟩ => some s
    | _, _ => none

/-- The rows sent are the first ones, and an export that returned `(true, nil)` met no failure and
wrote all rows up to the limit. -/
def ExportComplete (rows : List α) (rowCountLimit : Nat) (s : Export α ε) : Prop :=
  s.sent <+: rows ∧
    (s.reader = .returned true none → s.failed = false ∧ s.written = rows.take rowCountLimit)

/-- The reader does not take the closed `rowChan` while `errChan` still holds an error. -/
def ErrChanEmpty (s : Export α ε) : ExportAction ε → Prop
  | .takeRowsEnd => s.errChan.buffer = none
  | _ => True

/-! ## Invariants -/

/-- What the producer has sent, and how its `return` comes about. -/
def ProducerOk (rows : List α) (limit : Nat) (s : Export α ε) : Prop :=
  match s.producer with
  | .atLoop rowCount => rowCount ≤ limit ∧ s.sent = rows.take rowCount ∧ s.failed = false
  | .sending rowCount chunkSize newRowsCount pending =>
    rowCount + chunkSize ≤ limit ∧ newRowsCount = (queryRange rows rowCount chunkSize).length ∧
      s.sent ++ pending = rows.take (rowCount + chunkSize) ∧ s.failed = false
  | .failing _ => s.sent <+: rows.take limit ∧ s.failed = true
  | _ =>
    s.sent <+: rows.take limit ∧
      (s.failed = true ∨ (∃ b e, s.reader = .returned b e) ∨ s.sent = rows.take limit)

structure ExportInv (rows : List α) (limit : Nat) (s : Export α ε) : Prop where
  producer : ProducerOk rows limit s
  rowsClosed : s.rowChan.closed = true → s.producer = .closing ∨ s.producer = .finished
  /-- A failure stays visible until the reader returns. -/
  visible : s.failed = true →
    (∃ err, s.producer = .failing err) ∨ s.errChan.buffer ≠ none ∨ ∃ b e, s.reader = .returned b e
  /-- What the reader has not written yet is in the buffer. -/
  flow : ∀ n, s.reader = .selecting n → s.sent = s.written ++ s.rowChan.buffer.toList

section Steps

variable {rows : List α} {limit : Nat} {size : α → UInt64} {s t : Export α ε} {a : ExportAction ε}

theorem ExportInv.start : ExportInv rows limit (Export.start : Export α ε) :=
  ⟨⟨Nat.zero_le _, rfl, rfl⟩, nofun, nofun, fun _ _ => rfl⟩

theorem ProducerOk.sent_prefix (h : ProducerOk rows limit s) : s.sent <+: rows := by
  unfold ProducerOk at h
  split at h
  · exact h.2.1 ▸ List.take_prefix _ _
  · exact (List.prefix_append _ _).trans (h.2.2.1 ▸ List.take_prefix _ _)
  all_goals exact h.1.trans (List.take_prefix _ _)

/-- A full chunk moves the loop on; a shorter one was the last. -/
theorem chunk_sent {rowCount chunkSize n : Nat} (bound : rowCount + chunkSize ≤ limit)
    (hn : n = (queryRange rows rowCount chunkSize).length)
    (h : s.sent = rows.take (rowCount + chunkSize)) :
    n < chunkSize ∧ s.sent = rows.take limit ∨
      ¬ n < chunkSize ∧ rowCount + n ≤ limit ∧ s.sent = rows.take (rowCount + n) := by
  rw [queryRange, List.length_take, List.length_drop] at hn
  rcases Nat.lt_or_ge n chunkSize with hshort | hfull
  · refine .inl ⟨hshort, ?_⟩
    rw [h, List.take_of_length_le (by omega), List.take_of_length_le (by omega)]
  · obtain rfl : n = chunkSize := by omega
    exact .inr ⟨by omega, bound, h⟩

/-- A step of the reader leaves the producer alone. -/
theorem ExportInv.reads {n : UInt64} (hi : ExportInv rows limit s) (here : s.reader = .selecting n)
    (hp : t.producer = s.producer) (hs : t.sent = s.sent) (hf : t.failed = s.failed)
    (hc : t.rowChan.closed = s.rowChan.closed)
    (he : t.errChan.buffer = s.errChan.buffer ∨ ∃ b e, t.reader = .returned b e)
    (flow : ∀ n, t.reader = .selecting n → t.sent = t.written ++ t.rowChan.buffer.toList) :
    ExportInv rows limit t := by
  obtain ⟨producer, closed, visible, -⟩ := hi
  refine ⟨?_, by rwa [hc, hp], ?_, flow⟩
  · unfold ProducerOk at producer ⊢
    rw [hp, hs, hf]
    split at producer
    case h_4 =>
      -- the producer has not stopped for a reader that is still selecting
      obtain ⟨hpre, hfailed | ⟨b, e, hr⟩ | hall⟩ := producer
      · exact ⟨hpre, .inl hfailed⟩
      · cases here.symm.trans hr
      · exact ⟨hpre, .inr (.inr hall)⟩
    all_goals exact producer
  · intro hfailed
    rcases visible (hf ▸ hfailed) with hfailing | hbuf | ⟨b, e, hr⟩
    · exact .inl (hp ▸ hfailing)
    · rcases he with he | he
      · exact .inr (.inl (he ▸ hbuf))
      · exact .inr (.inr he)
    · cases here.symm.trans hr

/-- The loop ends with all rows sent. -/
theorem ExportInv.loopEnds (hi : ExportInv rows limit s)
    (h : exportStep rows limit size s .loopEnds = some t) : ExportInv rows limit t := by
  have ⟨producer, closed, visible, flow⟩ := hi
  simp only [exportStep] at h
  split at h
  · rename_i rowCount hp
    split at h
    · cases h
    · obtain rfl := Option.some.inj h
      obtain ⟨hle, hsent, hfailed⟩ : _ ∧ _ ∧ _ := by simpa only [ProducerOk, hp] using producer
      obtain rfl : rowCount = limit := by omega
      exact ⟨⟨hsent ▸ List.prefix_rfl, .inr (.inr hsent)⟩, by simpa [hp] using closed,
        by simp [hfailed], flow⟩
  · cases h

/-- The rows of a chunk are those behind the ones sent. -/
theorem ExportInv.callReturns (hi : ExportInv rows limit s)
    (h : exportStep rows limit size s .callReturns = some t) : ExportInv rows limit t := by
  have ⟨producer, closed, visible, flow⟩ := hi
  simp only [exportStep] at h
  split at h
  · rename_i rowCount hp
    split at h
    · obtain rfl := Option.some.inj h
      obtain ⟨hle, hsent, hfailed⟩ : _ ∧ _ ∧ _ := by simpa only [ProducerOk, hp] using producer
      refine ⟨⟨by omega, rfl, ?_, hfailed⟩, by simpa [hp] using closed, by simp [hfailed], flow⟩
      rw [hsent, queryRange, List.take_add]
    · cases h
  · cases h

/-- A failed call is on its way to the reader. -/
theorem ExportInv.callFails {err : ε} (hi : ExportInv rows limit s)
    (h : exportStep rows limit size s (.callFails err) = some t) : ExportInv rows limit t := by
  have ⟨producer, closed, visible, flow⟩ := hi
  simp only [exportStep] at h
  split at h
  · rename_i rowCount hp
    split at h
    · obtain rfl := Option.some.inj h
      obtain ⟨hle, hsent, -⟩ : _ ∧ _ ∧ _ := by simpa only [ProducerOk, hp] using producer
      exact ⟨⟨hsent ▸ List.take_prefix_take_left hle, rfl⟩, by simpa [hp] using closed,
        fun _ => .inl ⟨err, rfl⟩, flow⟩
    · cases h
  · cases h

/-- A row that is sent goes into the buffer. -/
theorem ExportInv.sendRow (hi : ExportInv rows limit s)
    (h : exportStep rows limit size s .sendRow = some t) : ExportInv rows limit t := by
  have ⟨producer, closed, visible, flow⟩ := hi
  simp only [exportStep] at h
  split at h <;> cases h
  rename_i rowCount chunkSize newRowsCount row pending hp hb
  obtain ⟨hle, hnew, hsent, hfailed⟩ : _ ∧ _ ∧ _ ∧ _ := by
    simpa only [ProducerOk, hp] using producer
  refine ⟨⟨hle, hnew, ?_, hfailed⟩, by simpa [hp] using closed, by simp [hfailed], ?_⟩
  · rw [← hsent, List.append_assoc, List.singleton_append]
  · intro n hn
    have hw : s.sent = s.written := by simpa [hb] using flow n hn
    rw [hw]
    rfl

theorem ExportInv.sendTimesOut {err : ε} (hi : ExportInv rows limit s)
    (h : exportStep rows limit size s (.sendTimesOut err) = some t) : ExportInv rows limit t := by
  have ⟨producer, closed, visible, flow⟩ := hi
  simp only [exportStep] at h
  split at h <;> cases h
  rename_i rowCount chunkSize newRowsCount row pending hp
  obtain ⟨hle, -, hsent, -⟩ : _ ∧ _ ∧ _ ∧ _ := by simpa only [ProducerOk, hp] using producer
  have hpre : s.sent <+: rows.take limit :=
    (List.prefix_append _ _).trans (hsent ▸ List.take_prefix_take_left hle)
  exact ⟨⟨hpre, rfl⟩, by simpa [hp] using closed, fun _ => .inl ⟨err, rfl⟩, flow⟩

/-- The producer stops early for a reader that has returned. -/
theorem ExportInv.sendStopped (hi : ExportInv rows limit s)
    (h : exportStep rows limit size s .sendStopped = some t) : ExportInv rows limit t := by
  have ⟨producer, closed, visible, flow⟩ := hi
  simp only [exportStep] at h
  split at h <;> cases h
  rename_i rowCount chunkSize newRowsCount row pending b e hp hr
  obtain ⟨hle, -, hsent, hfailed⟩ : _ ∧ _ ∧ _ ∧ _ := by
    simpa only [ProducerOk, hp] using producer
  have hpre : s.sent <+: rows.take limit :=
    (List.prefix_append _ _).trans (hsent ▸ List.take_prefix_take_left hle)
  exact ⟨⟨hpre, .inr (.inl ⟨b, e, hr⟩)⟩, by simpa [hp] using closed, by simp [hfailed], flow⟩

theorem ExportInv.chunkEnds (hi : ExportInv rows limit s)
    (h : exportStep rows limit size s .chunkEnds = some t) : ExportInv rows limit t := by
  have ⟨producer, closed, visible, flow⟩ := hi
  simp only [exportStep] at h
  split at h <;> cases h
  rename_i rowCount chunkSize newRowsCount hp
  obtain ⟨hle, hnew, hsent, hfailed⟩ : _ ∧ _ ∧ _ ∧ _ := by
    simpa only [ProducerOk, hp] using producer
  have hopen : ¬ s.rowChan.closed = true := fun hc => by simpa [hp] using closed hc
  refine ⟨?_, fun hc => absurd hc hopen, by simp [hfailed], flow⟩
  rcases chunk_sent hle hnew (by simpa using hsent) with ⟨hshort, hall⟩ | ⟨hfull, hchunk⟩
  · simp only [ProducerOk, if_pos hshort]
    exact ⟨hall ▸ List.prefix_rfl, .inr (.inr hall)⟩
  · simp only [ProducerOk, if_neg hfull]
    exact ⟨hchunk.1, hchunk.2, hfailed⟩

/-- One step, one case for each action. -/
theorem ExportInv.step (hi : ExportInv rows limit s)
    (h : exportStep rows limit size s a = some t) : ExportInv rows limit t := by
  cases a with
  | loopEnds => exact hi.loopEnds h
  | callReturns => exact hi.callReturns h
  | callFails err => exact hi.callFails h
  | sendRow => exact hi.sendRow h
  | sendTimesOut err => exact hi.sendTimesOut h
  | sendStopped => exact hi.sendStopped h
  | chunkEnds => exact hi.chunkEnds h
  | sendErr =>
    have ⟨producer, closed, visible, flow⟩ := hi
    simp only [exportStep] at h
    split at h <;> cases h
    rename_i err hp hb
    obtain ⟨hpre, hfailed⟩ : _ ∧ _ := by simpa only [ProducerOk, hp] using producer
    exact ⟨⟨hpre, .inl hfailed⟩, by simpa [hp] using closed, fun _ => .inr (.inl nofun), flow⟩
  | closeRowChan =>
    have ⟨producer, closed, visible, flow⟩ := hi
    simp only [exportStep] at h
    split at h <;> cases h
    rename_i hp
    simp only [ProducerOk, hp] at producer
    exact ⟨producer, fun _ => .inl rfl, fun hf => by simpa [hp] using visible hf, flow⟩
  | closeErrChan =>
    have ⟨producer, closed, visible, flow⟩ := hi
    simp only [exportStep] at h
    split at h <;> cases h
    rename_i hp
    simp only [ProducerOk, hp] at producer
    exact ⟨producer, fun _ => .inr rfl, fun hf => by simpa [hp] using visible hf, flow⟩
  | takeRow =>
    have ⟨producer, closed, visible, flow⟩ := hi
    simp only [exportStep] at h
    split at h <;> cases h
    rename_i totalBytes row hr hb
    have hsent := flow totalBytes hr
    rw [hb] at hsent
    exact hi.reads hr rfl rfl rfl rfl (.inl rfl) fun _ _ => by simpa using hsent
  | rowFails err =>
    have ⟨producer, closed, visible, flow⟩ := hi
    simp only [exportStep] at h
    split at h <;> cases h
    rename_i hr hb
    exact hi.reads hr rfl rfl rfl rfl (.inl rfl) nofun
  | takeRowsEnd =>
    have ⟨producer, closed, visible, flow⟩ := hi
    simp only [exportStep] at h
    split at h <;> cases h
    rename_i hr hb
    exact hi.reads hr rfl rfl rfl rfl (.inl rfl) nofun
  | takeErr =>
    have ⟨producer, closed, visible, flow⟩ := hi
    simp only [exportStep] at h
    split at h <;> cases h
    rename_i err hr hb
    exact hi.reads hr rfl rfl rfl rfl (.inr ⟨_, _, rfl⟩) nofun
  | takeErrsEnd =>
    have ⟨producer, closed, visible, flow⟩ := hi
    simp only [exportStep] at h
    split at h
    · obtain rfl := Option.some.inj h
      exact hi
    · cases h

/-! ## Complete exports -/

/-- Once `(true, nil)` is returned the producer only closes `errChan`. -/
def CompleteInv (rows : List α) (limit : Nat) (s : Export α ε) : Prop :=
  s.reader = .returned true none →
    (s.producer = .closing ∨ s.producer = .finished) ∧ s.failed = false ∧
      s.written = rows.take limit

/-- The reader returns `(true, nil)` at the closed `rowChan` only. -/
theorem returns_complete (h : exportStep rows limit size s a = some t)
    (hret : t.reader = .returned true none) :
    s.reader = .returned true none ∨
      a = .takeRowsEnd ∧ s.rowChan = ⟨none, true⟩ ∧ (∃ n, s.reader = .selecting n) ∧
        t = { s with reader := .returned true none } := by
  cases a <;> simp only [exportStep] at h
  case takeRow =>
    split at h <;> cases h
    dsimp only at hret
    split at hret <;> cases hret
  case rowFails | takeErr =>
    split at h <;> cases h
    cases hret
  case takeRowsEnd =>
    split at h <;> cases h
    exact .inr ⟨rfl, ‹_›, ⟨_, ‹_›⟩, rfl⟩
  case loopEnds | callReturns | callFails =>
    split at h
    · split at h <;> cases h
      exact .inl hret
    · cases h
  all_goals
    split at h <;> cases h
    exact .inl hret

/-- After both have ended, only `errChan` is left to close. -/
theorem step_after_return (hr : s.reader = .returned true none)
    (hend : s.producer = .closing ∨ s.producer = .finished)
    (h : exportStep rows limit size s a = some t) :
    t.producer = .finished ∧ t.failed = s.failed ∧ t.written = s.written := by
  cases a <;> rcases hend with hp | hp <;> simp only [exportStep, hp, hr] at h
  case closeErrChan.inl =>
    obtain rfl := Option.some.inj h
    exact ⟨rfl, rfl, rfl⟩
  all_goals cases h

theorem CompleteInv.step (hi : ExportInv rows limit s) (hc : CompleteInv rows limit s)
    (hmeet : ErrChanEmpty s a) (h : exportStep rows limit size s a = some t) :
    CompleteInv rows limit t := by
  intro hret
  rcases returns_complete h hret with hr | ⟨rfl, hb, ⟨n, hr⟩, rfl⟩
  · obtain ⟨hend, hfailed, hwritten⟩ := hc hr
    obtain ⟨hp, hf, hw⟩ := step_after_return hr hend h
    exact ⟨.inr hp, hf.trans hfailed, hw.trans hwritten⟩
  · have hend := hi.rowsClosed (by rw [hb])
    have hok : ¬ s.failed = true := by
      intro hf
      -- the failure would still be in `errChan`
      rcases hi.visible hf with ⟨err, hp⟩ | hne | ⟨b, e, hb⟩
      · simp [hp] at hend
      · exact hne hmeet
      · cases hr.symm.trans hb
    have hp := hi.producer
    have hsent : s.sent = rows.take limit := by
      rcases hend with hend | hend
      all_goals
        simp only [ProducerOk, hend, hr] at hp
        simpa [hok] using hp.2
    refine ⟨hend, by simpa using hok, ?_⟩
    simpa [hb, hsent] using (hi.flow n hr).symm

/-- Every run sends the first rows only, and the condition under which `(true, nil)` means that
all of them were written. -/
theorem complete_export (rows : List α) (size : α → UInt64) (limit : Nat)
    (actions : List (ExportAction ε)) (s : Export α ε)
    (h : exec (exportStep rows limit size) .start actions = some s) :
    s.sent <+: rows ∧
      (StepsMeet (exportStep rows limit size) ErrChanEmpty .start actions →
        ExportComplete rows limit s) := by
  have hinv := exec_invariant (I := fun _ s => ExportInv rows limit s) ExportInv.start
    (fun _ _ _ _ hi hstep => hi.step hstep) actions s h
  refine ⟨hinv.producer.sent_prefix, fun hmeet => ⟨hinv.producer.sent_prefix, fun hret => ?_⟩⟩
  have hboth := exec_invariant_of_stepsMeet
    (I := fun _ s => ExportInv rows limit s ∧ CompleteInv rows limit s)
    ⟨ExportInv.start, nofun⟩
    (fun _ _ _ _ hi hmeet hstep => ⟨hi.1.step hstep, hi.2.step hi.1 hmeet hstep⟩)
    actions s hmeet h
  exact (hboth.2 hret).2

/-- Rows are sent and taken in turn. -/
def relay : Nat → List (ExportAction ε)
  | 0 => []
  | n + 1 => .sendRow :: .takeRow :: relay n

/-- The rows of a chunk pass from one goroutine to the other while the bytes fit. -/
theorem exec_relay (rows : List α) (limit rowCount chunkSize newRowsCount : Nat) (sent : List α) :
    ∀ (pending : List α) (written : List α) (errChan : Channel ε) (bytes : UInt64),
      bytes.toNat + 3 * pending.length ≤ MaxExportBytesLimit.toNat →
      ∃ bytes' : UInt64, bytes'.toNat = bytes.toNat + 3 * pending.length ∧
        exec (exportStep rows limit fun _ => 3)
          ⟨.sending rowCount chunkSize newRowsCount pending, ⟨none, false⟩, errChan,
            .selecting bytes, written, sent ++ written, false⟩ (relay pending.length) =
          some ⟨.sending rowCount chunkSize newRowsCount [], ⟨none, false⟩, errChan,
            .selecting bytes', written ++ pending, sent ++ (written ++ pending), false⟩ := by
  intro pending
  induction pending with
  | nil => exact fun written errChan bytes _ => ⟨bytes, rfl, by simp [relay]⟩
  | cons row pending ih =>
    intro written errChan bytes hfit
    rw [List.length_cons] at hfit
    have hmax : MaxExportBytesLimit.toNat = 10737418240 := rfl
    have hthree : (3 : UInt64).toNat = 3 := rfl
    have hbytes : (bytes + 3).toNat = bytes.toNat + 3 := by
      rw [UInt64.toNat_add, hthree]
      exact Nat.mod_eq_of_lt (by omega)
    have hroom : ¬ MaxExportBytesLimit < bytes + 3 := by
      rw [UInt64.lt_iff_toNat_lt, hbytes]
      omega
    obtain ⟨bytes', hsum, hrun⟩ := ih (written ++ [row]) errChan (bytes + 3) (by omega)
    refine ⟨bytes', by rw [hsum, hbytes, List.length_cons]; omega, ?_⟩
    rw [List.length_cons, relay, exec_cons _ rfl]
    have htake : exportStep rows limit (fun _ => (3 : UInt64))
        ⟨.sending rowCount chunkSize newRowsCount pending, ⟨some row, false⟩, errChan,
          .selecting bytes, written, sent ++ written ++ [row], false⟩ (.takeRow : ExportAction ε) =
        some ⟨.sending rowCount chunkSize newRowsCount pending, ⟨none, false⟩, errChan,
          .selecting (bytes + 3), written ++ [row], sent ++ (written ++ [row]), false⟩ := by
      simp [exportStep, hroom]
    rw [exec_cons _ htake, hrun, List.append_assoc, List.singleton_append]

/-- Only the end of the rows waits for the error channel. -/
theorem relay_meets (rows : List α) (limit : Nat) (size : α → UInt64) :
    ∀ (n : Nat) (s : Export α ε), StepsMeet (exportStep rows limit size) ErrChanEmpty s (relay n)
  | 0, _ => trivial
  | n + 1, _ => ⟨trivial, fun _ _ => ⟨trivial, fun _ _ => relay_meets rows limit size n _⟩⟩

/-- One row more than a chunk has. -/
def manyRows : List String := List.replicate (ChunkSize + 1) "row"

/-- The rows up to the end of the loop. -/
def twoChunks : List (ExportAction String) :=
  .callReturns :: (relay ChunkSize ++ [.chunkEnds]) ++ .callReturns :: (relay 1 ++ [.chunkEnds])

/-- Two chunks, closed and read to the end. -/
def twoChunksRun : List (ExportAction String) :=
  twoChunks ++ [.loopEnds, .closeRowChan, .takeRowsEnd]

/-- A chunk, from the call that returns it to its end. -/
theorem exec_chunk (rows : List α) (limit : Nat) {rowCount : Nat} (hlt : rowCount < limit)
    {newRows written : List α}
    (hfull : min ChunkSize (limit - rowCount) = newRows.length)
    (hrows : queryRange rows rowCount newRows.length = newRows) (errChan : Channel ε)
    {bytes : UInt64} (hbytes : bytes.toNat + 3 * newRows.length ≤ MaxExportBytesLimit.toNat) :
    ∃ bytes' : UInt64, bytes'.toNat = bytes.toNat + 3 * newRows.length ∧
      exec (exportStep rows limit fun _ => 3)
          ⟨.atLoop rowCount, ⟨none, false⟩, errChan, .selecting bytes, written, written, false⟩
          (.callReturns :: (relay newRows.length ++ [.chunkEnds])) =
        some ⟨.atLoop (rowCount + newRows.length), ⟨none, false⟩, errChan, .selecting bytes',
          written ++ newRows, written ++ newRows, false⟩ := by
  obtain ⟨bytes', hsum, hrelay⟩ := exec_relay rows limit rowCount newRows.length newRows.length []
    newRows written errChan bytes hbytes
  refine ⟨bytes', hsum, ?_⟩
  have hcall : exportStep rows limit (fun _ => (3 : UInt64))
      ⟨.atLoop rowCount, ⟨none, false⟩, errChan, .selecting bytes, written, written, false⟩
      (.callReturns : ExportAction ε) =
      some ⟨.sending rowCount newRows.length newRows.length newRows, ⟨none, false⟩, errChan,
        .selecting bytes, written, written, false⟩ := by
    simp only [exportStep, if_pos hlt, hfull, hrows]
  simp only [List.nil_append] at hrelay
  rw [exec_cons _ hcall, exec_append hrelay, exec_cons [] _]
  · rfl
  · simp only [exportStep, Nat.lt_irrefl, if_false]

/-- Two chunks pass, and the reader comes to the end of the rows with no error left. -/
theorem complete_export_two_chunks :
    ∃ s, exec (exportStep manyRows (ChunkSize + 1) fun _ => 3) .start twoChunksRun = some s ∧
      s.reader = .returned true none ∧ ExportComplete manyRows (ChunkSize + 1) s := by
  have hfirst : queryRange manyRows 0 (List.replicate ChunkSize "row").length =
      List.replicate ChunkSize "row" := by
    simp [queryRange, manyRows, List.take_replicate]
  have hsecond : queryRange manyRows ChunkSize ["row"].length = ["row"] := by
    simp [queryRange, manyRows]
  obtain ⟨bytes, hsum, hchunk⟩ := @exec_chunk String String manyRows (ChunkSize + 1) 0
    (Nat.succ_pos _) (List.replicate ChunkSize "row") [] (by simp) hfirst ⟨none, false⟩ 0
    (by rw [List.length_replicate]; decide)
  rw [List.length_replicate] at hsum hchunk
  have hbytes : bytes.toNat = 15000 := hsum
  obtain ⟨bytes', -, hchunk'⟩ := @exec_chunk String String manyRows (ChunkSize + 1) (0 + ChunkSize)
    (by omega) ["row"] ([] ++ List.replicate ChunkSize "row") (by rw [Nat.zero_add]; rfl)
    (by rw [Nat.zero_add]; exact hsecond) ⟨none, false⟩ bytes (by rw [hbytes]; decide)
  have hrows : exec (exportStep manyRows (ChunkSize + 1) fun _ => 3) .start twoChunks =
      some ⟨.atLoop (0 + ChunkSize + 1), ⟨none, false⟩, ⟨none, false⟩, .selecting bytes',
        [] ++ List.replicate ChunkSize "row" ++ ["row"],
        [] ++ List.replicate ChunkSize "row" ++ ["row"], false⟩ :=
    (exec_append hchunk).trans hchunk'
  have hmeet : StepsMeet (exportStep manyRows (ChunkSize + 1) fun _ => 3) ErrChanEmpty .start
      twoChunksRun := by
    refine StepsMeet.append ?_ ?_
    · refine StepsMeet.append ⟨trivial, fun _ _ => ?_⟩ fun _ _ => ⟨trivial, fun _ _ => ?_⟩
      · exact (relay_meets _ _ _ _ _).append fun _ _ => ⟨trivial, fun _ _ => trivial⟩
      · exact (relay_meets _ _ _ _ _).append fun _ _ => ⟨trivial, fun _ _ => trivial⟩
    · intro m hm
      obtain rfl := Option.some.inj (hrows.symm.trans hm)
      refine ⟨trivial, ?_⟩
      rintro _ ⟨⟩
      refine ⟨trivial, ?_⟩
      rintro _ ⟨⟩
      exact ⟨rfl, fun _ _ => trivial⟩
  have hrun : exec (exportStep manyRows (ChunkSize + 1) fun _ => 3) .start twoChunksRun =
      some ⟨.closing, ⟨none, true⟩, ⟨none, false⟩, .returned true none,
        [] ++ List.replicate ChunkSize "row" ++ ["row"],
        [] ++ List.replicate ChunkSize "row" ++ ["row"], false⟩ := by
    rw [twoChunksRun, exec_append hrows]
    rfl
  exact ⟨_, hrun, rfl, (complete_export manyRows _ _ twoChunksRun _ hrun).2 hmeet⟩

/-- The first call fails, and the reader picks the closed `rowChan`. -/
theorem failed_export_complete :
    ∃ s, exec (exportStep ["row"] 1 fun _ => 3) (.start : Export String String)
        [.callFails "timeout", .sendErr, .closeRowChan, .takeRowsEnd] = some s ∧
      ¬ ExportComplete ["row"] 1 s :=
  ⟨_, rfl, fun h => nomatch (h.2 rfl).1⟩

/-! ## No deadlock -/

/-- The producer sends at most one error, and closes `rowChan` before it closes `errChan`. -/
structure Advancing (s : Export α ε) : Prop where
  errs : s.errChan.buffer ≠ none →
    s.producer = .returning ∨ s.producer = .closing ∨ s.producer = .finished
  rows : s.producer = .closing ∨ s.producer = .finished → s.rowChan.closed = true

theorem Advancing.step (hi : Advancing s) (h : exportStep rows limit size s a = some t) :
    Advancing t := by
  obtain ⟨errs, rows⟩ := hi
  cases a <;> simp only [exportStep] at h
  case chunkEnds =>
    split at h <;> cases h
    rename_i hp
    refine ⟨fun he => by simpa [hp] using errs he, fun hend => ?_⟩
    dsimp only at hend
    split at hend <;> simp at hend
  all_goals
    split at h
    · first | cases h | (split at h <;> cases h)
      constructor <;> simp_all
    · cases h

/-- What the two do on their own: no call fails, and the deadline is not met. -/
def ExportAction.own : ExportAction ε → Prop
  | .callFails _ | .sendTimesOut _ | .rowFails _ | .takeErrsEnd => False
  | _ => True

/-- Until both have ended, one of them can go on. -/
theorem export_never_stuck (rows : List α) (size : α → UInt64) (limit : Nat)
    (actions : List (ExportAction ε)) (s : Export α ε)
    (h : exec (exportStep rows limit size) .start actions = some s) :
    (s.producer = .finished ∧ ∃ isComplete err, s.reader = .returned isComplete err) ∨
      ∃ a : ExportAction ε, a.own ∧ (exportStep rows limit size s a).isSome := by
  have hi : Advancing s := exec_invariant (I := fun _ s => Advancing s)
    ⟨by simp [Export.start], by simp [Export.start]⟩
    (fun _ _ _ _ hi hstep => hi.step hstep) actions s h
  obtain ⟨producer, ⟨row, closed⟩, errChan, reader, written, sent, failed⟩ := s
  cases producer with
  | atLoop rowCount =>
    by_cases hlt : rowCount < limit
    · exact .inr ⟨.callReturns, trivial, by simp [exportStep, hlt]⟩
    · exact .inr ⟨.loopEnds, trivial, by simp [exportStep, hlt]⟩
  | sending rowCount chunkSize newRowsCount pending =>
    cases pending with
    | nil => exact .inr ⟨.chunkEnds, trivial, rfl⟩
    | cons _ pending =>
      cases row with
      | none => exact .inr ⟨.sendRow, trivial, rfl⟩
      | some row =>
        -- the buffer is full: the reader takes the row, or has returned
        cases reader with
        | selecting totalBytes => exact .inr ⟨.takeRow, trivial, rfl⟩
        | returned isComplete err => exact .inr ⟨.sendStopped, trivial, rfl⟩
  | failing err =>
    have hnone : errChan.buffer = none := by
      by_contra hsome
      simpa using hi.errs hsome
    exact .inr ⟨.sendErr, trivial, by simp [exportStep, hnone]⟩
  | returning => exact .inr ⟨.closeRowChan, trivial, rfl⟩
  | closing => exact .inr ⟨.closeErrChan, trivial, rfl⟩
  | finished =>
    cases reader with
    | returned isComplete err => exact .inl ⟨rfl, isComplete, err, rfl⟩
    | selecting totalBytes =>
      obtain rfl : closed = true := hi.rows (.inr rfl)
      cases row with
      | none => exact .inr ⟨.takeRowsEnd, trivial, rfl⟩
      | some row => exact .inr ⟨.takeRow, trivial, rfl⟩

theorem export_never_stuck_full_buffer :
    ∃ s, exec (exportStep ["row", "row"] 2 fun _ => 3) .start [.callReturns, .sendRow] = some s ∧
      ((s.producer = .finished ∧ ∃ isComplete err, s.reader = .returned isComplete err) ∨
        ∃ a : ExportAction String,
          a.own ∧ (exportStep ["row", "row"] 2 (fun _ => 3) s a).isSome) :=
  ⟨_, rfl, export_never_stuck _ _ _ [.callReturns, .sendRow] _ rfl⟩

end Steps

end Signoz.RawDataExport
