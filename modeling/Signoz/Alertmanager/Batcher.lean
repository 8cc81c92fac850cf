import Signoz.Lib.BoundedQueue
import Signoz.Lib.Runs

/-!
# The alert batcher

`batcher.go` of `alertmanagerbatcher`: callers of `Add` put alerts into a bounded queue and leave a
token in a one-slot channel, and one sender goroutine, started by `Start`, takes batches out of the
queue until `Stop` closes its stop channel.

The goroutine is a small state machine whose steps interleave freely with `Add` and `Stop`; each
critical section under `queueMtx` is one step. `batcher_bounded_fifo` is the main result, over every
interleaving.
-/

namespace Signoz.Alertmanager

open Lib.BoundedQueue Lib.Runs

universe u

variable {α : Type u}

/-! ## State -/

/-- `Config`. -/
structure BatcherConfig where
  capacity : Nat
  size : Nat

/-- Where the sender goroutine is. -/
inductive Sender (α : Type u) where
  /-- At the `select` on `stopC` and `moreC`. -/
  | atSelect
  /-- A token was received, `next` comes. -/
  | woken
  /-- At `batcher.C <- alerts` of the loop body. -/
  | sending (alerts : List α)
  /-- At the re-check of `queueLen`. -/
  | rechecking
  /-- The re-check saw alerts, `setMore` comes. -/
  | signalling
  /-- In the stop branch, at the loop condition. -/
  | draining
  /-- In the stop branch, the condition held, `next` comes. -/
  | drainWoken
  /-- At `batcher.C <- alerts` of the stop branch. -/
  | drainSending (alerts : List α)
  /-- `C` is closed and the goroutine has returned. -/
  | closed

/-- The batch the sender holds between `next` and the send. -/
def Sender.inFlight : Sender α → List α
  | .sending alerts => alerts
  | .drainSending alerts => alerts
  | _ => []

/-- The sender has received from `stopC`. -/
def Sender.hasStopped : Sender α → Bool
  | .draining => true
  | .drainWoken => true
  | .drainSending _ => true
  | .closed => true
  | _ => false

/-- `Batcher`, with the batches sent to `C` so far and the alerts `Add` cut off, both of which
the program only logs or hands on. -/
structure Batcher (α : Type u) where
  queue : List α
  /-- `moreC` holds its token. -/
  moreC : Bool
  /-- `stopC` is closed. -/
  stopC : Bool
  sender : Sender α
  emitted : List (List α)
  dropped : List α

/-- `New`, with the sender of `Start` at its `select`. -/
def Batcher.new : Batcher α := ⟨[], false, false, .atSelect, [], []⟩

/-! ## Operations -/

/-- `setMore`: a token that is already there stays the only one. -/
def setMore (batcher : Batcher α) : Batcher α := { batcher with moreC := true }

/-- `Add`: the alerts are cut to the capacity, then the queue to the room that is left. -/
def add (config : BatcherConfig) (alerts : List α) (batcher : Batcher α) : Batcher α :=
  let excess := alerts.length - config.capacity
  let rest := alerts.drop excess
  let full := batcher.queue.length + rest.length - config.capacity
  setMore
    { batcher with
      queue := batcher.queue.drop full ++ rest
      dropped := batcher.dropped ++ (batcher.queue.take full ++ alerts.take excess) }

/-- `next`: at most `Size` alerts from the front of the queue. -/
def next (config : BatcherConfig) (batcher : Batcher α) : List α × Batcher α :=
  if config.size < batcher.queue.length then
    (batcher.queue.take config.size,
      { batcher with queue := batcher.queue.drop config.size })
  else (batcher.queue, { batcher with queue := [] })

/-- One atomic step of a caller or of the sender goroutine. -/
inductive BatcherAction (α : Type u) where
  | add (alerts : List α)
  | stop
  /-- The `select` receives from `moreC`. -/
  | takeMore
  /-- The `select` receives from the closed `stopC`. -/
  | takeStop
  | next
  | send
  | queueLen
  | setMore

/-- The step function. A second `Stop` would close `stopC` again and panic, so `stop` is enabled
once; a send that finds `C` full is a step that comes later. -/
def batcherStep (config : BatcherConfig) (batcher : Batcher α) :
    BatcherAction α → Option (Batcher α)
  | .add alerts => some (add config alerts batcher)
  | .stop => if batcher.stopC then none else some { batcher with stopC := true }
  | .takeMore =>
    match batcher.sender with
    | .atSelect =>
      if batcher.moreC then some { batcher with moreC := false, sender := .woken } else none
    | _ => none
  | .takeStop =>
    match batcher.sender with
    | .atSelect => if batcher.stopC then some { batcher with sender := .draining } else none
    | _ => none
  | .next =>
    let (alerts, rest) := next config batcher
    match batcher.sender with
    | .woken => some { rest with sender := .sending alerts }
    | .drainWoken => some { rest with sender := .drainSending alerts }
    | _ => none
  | .send =>
    match batcher.sender with
    | .sending alerts =>
      some { batcher with sender := .rechecking, emitted := batcher.emitted ++ [alerts] }
    | .drainSending alerts =>
      some { batcher with sender := .draining, emitted := batcher.emitted ++ [alerts] }
    | _ => none
  | .queueLen =>
    match batcher.sender with
    | .rechecking =>
      if 0 < batcher.queue.length then some { batcher with sender := .signalling }
      else some { batcher with sender := .atSelect }
    | .draining =>
      if 0 < batcher.queue.length then some { batcher with sender := .drainWoken }
      else some { batcher with sender := .closed }
    | _ => none
  | .setMore =>
    match batcher.sender with
    | .signalling => some { setMore batcher with sender := .atSelect }
    | _ => none

/-! ## What one step can do -/

/-- The transitions, one constructor each. -/
inductive BatcherMove (config : BatcherConfig) :
    Batcher α → BatcherAction α → Batcher α → Prop
  | add (b : Batcher α) (alerts : List α) :
      BatcherMove config b (.add alerts) (add config alerts b)
  | stop (b : Batcher α) : BatcherMove config b .stop { b with stopC := true }
  | takeMore (b : Batcher α) (here : b.sender = .atSelect) :
      BatcherMove config b .takeMore { b with moreC := false, sender := .woken }
  | takeStop (b : Batcher α) (here : b.sender = .atSelect) (stopped : b.stopC = true) :
      BatcherMove config b .takeStop { b with sender := .draining }
  | next (b : Batcher α) (here : b.sender = .woken) :
      BatcherMove config b .next
        { (next config b).2 with sender := .sending (next config b).1 }
  | drainNext (b : Batcher α) (here : b.sender = .drainWoken) :
      BatcherMove config b .next
        { (next config b).2 with sender := .drainSending (next config b).1 }
  | send (b : Batcher α) (alerts : List α) (here : b.sender = .sending alerts) :
      BatcherMove config b .send
        { b with sender := .rechecking, emitted := b.emitted ++ [alerts] }
  | drainSend (b : Batcher α) (alerts : List α) (here : b.sender = .drainSending alerts) :
      BatcherMove config b .send
        { b with sender := .draining, emitted := b.emitted ++ [alerts] }
  | recheck (b : Batcher α) (here : b.sender = .rechecking) :
      BatcherMove config b .queueLen { b with sender := .signalling }
  | recheckEmpty (b : Batcher α) (here : b.sender = .rechecking) (empty : b.queue = []) :
      BatcherMove config b .queueLen { b with sender := .atSelect }
  | drainMore (b : Batcher α) (here : b.sender = .draining) :
      BatcherMove config b .queueLen { b with sender := .drainWoken }
  | close (b : Batcher α) (here : b.sender = .draining) (empty : b.queue = []) :
      BatcherMove config b .queueLen { b with sender := .closed }
  | signal (b : Batcher α) (here : b.sender = .signalling) :
      BatcherMove config b .setMore { setMore b with sender := .atSelect }

section Steps

variable {config : BatcherConfig} {b t : Batcher α} {a : BatcherAction α}

theorem move_of_step (h : batcherStep config b a = some t) : BatcherMove config b a t := by
  cases a with
  | add alerts =>
    obtain rfl : add config alerts b = t := by simpa [batcherStep] using h
    exact .add b alerts
  | stop =>
    simp only [batcherStep] at h
    split at h
    · cases h
    · obtain rfl := Option.some.inj h
      exact .stop b
  | takeMore =>
    cases hs : b.sender with
    | atSelect =>
      simp only [batcherStep, hs] at h
      split at h
      · obtain rfl := Option.some.inj h
        exact .takeMore b hs
      · cases h
    | _ => simp [batcherStep, hs] at h
  | takeStop =>
    cases hs : b.sender with
    | atSelect =>
      simp only [batcherStep, hs] at h
      split at h
      · obtain rfl := Option.some.inj h
        exact .takeStop b hs ‹_›
      · cases h
    | _ => simp [batcherStep, hs] at h
  | next =>
    cases hs : b.sender with
    | woken =>
      simp only [batcherStep, hs] at h
      obtain rfl := Option.some.inj h
      exact .next b hs
    | drainWoken =>
      simp only [batcherStep, hs] at h
      obtain rfl := Option.some.inj h
      exact .drainNext b hs
    | _ => simp [batcherStep, hs] at h
  | send =>
    cases hs : b.sender with
    | sending alerts =>
      simp only [batcherStep, hs] at h
      obtain rfl := Option.some.inj h
      exact .send b alerts hs
    | drainSending alerts =>
      simp only [batcherStep, hs] at h
      obtain rfl := Option.some.inj h
      exact .drainSend b alerts hs
    | _ => simp [batcherStep, hs] at h
  | queueLen =>
    cases hs : b.sender with
    | rechecking =>
      simp only [batcherStep, hs] at h
      split at h
      · obtain rfl := Option.some.inj h
        exact .recheck b hs
      · obtain rfl := Option.some.inj h
        exact .recheckEmpty b hs (List.length_eq_zero_iff.1 (by omega))
    | draining =>
      simp only [batcherStep, hs] at h
      split at h
      · obtain rfl := Option.some.inj h
        exact .drainMore b hs
      · obtain rfl := Option.some.inj h
        exact .close b hs (List.length_eq_zero_iff.1 (by omega))
    | _ => simp [batcherStep, hs] at h
  | setMore =>
    cases hs : b.sender with
    | signalling =>
      simp only [batcherStep, hs] at h
      obtain rfl := Option.some.inj h
      exact .signal b hs
    | _ => simp [batcherStep, hs] at h

/-! ## Add and next on the ledger -/

/-- What became of the alerts: sent or about to be, cut off by `Add`, or queued. -/
def Batcher.ledger (b : Batcher α) : Ledger α :=
  ⟨b.emitted.flatten ++ b.sender.inFlight, b.dropped, b.queue⟩

/-- The two cuts of `Add` together are one cut of the alerts after the queue. -/
theorem add_queue (alerts : List α) (b : Batcher α) :
    (add config alerts b).queue = push config.capacity b.queue alerts :=
  trim_append_trim config.capacity b.queue alerts

theorem add_dropped (alerts : List α) (b : Batcher α) :
    (add config alerts b).dropped = b.dropped ++ evicted config.capacity b.queue alerts := by
  rw [← take_append_take config.capacity b.queue alerts]
  rfl

theorem add_ledger (alerts : List α) (b : Batcher α) :
    (add config alerts b).ledger = b.ledger.arrive config.capacity alerts := by
  show (⟨_, (add config alerts b).dropped, (add config alerts b).queue⟩ : Ledger α) = _
  rw [add_queue, add_dropped]
  rfl

/-- `next` returns the front of the queue, of length at most `Size`, and keeps the rest. -/
theorem next_spec (config : BatcherConfig) (b : Batcher α) :
    ∃ n, (next config b).1 = b.queue.take n ∧
      (next config b).2 = { b with queue := b.queue.drop n } ∧
      (b.queue.take n).length ≤ config.size := by
  rcases Nat.lt_or_ge config.size b.queue.length with hmore | hall
  · refine ⟨config.size, ?_, ?_, List.length_take_le _ _⟩
    · simp only [next, if_pos hmore]
    · simp only [next, if_pos hmore]
  · have hnot : ¬ config.size < b.queue.length := Nat.not_lt.2 hall
    refine ⟨b.queue.length, ?_, ?_, ?_⟩
    · simp only [next, if_neg hnot, List.take_length]
    · simp only [next, if_neg hnot, List.drop_length]
    · rw [List.take_length]
      exact hall

/-! ## Invariants -/

/-- The alerts given to `Add` in a history, in order. -/
def added : List (BatcherAction α) → List α
  | [] => []
  | .add alerts :: rest => alerts ++ added rest
  | _ :: rest => added rest

/-- Those given to `Add` after `Stop`. -/
def addedAfterStop : List (BatcherAction α) → List α
  | [] => []
  | .stop :: rest => added rest
  | _ :: rest => addedAfterStop rest

/-- `Stop` was called. -/
def hasStop : List (BatcherAction α) → Bool
  | [] => false
  | .stop :: _ => true
  | _ :: rest => hasStop rest

/-- What an action adds. -/
def BatcherAction.alerts : BatcherAction α → List α
  | .add alerts => alerts
  | _ => []

theorem added_concat (a : BatcherAction α) :
    ∀ history : List (BatcherAction α), added (history ++ [a]) = added history ++ a.alerts
  | [] => by cases a <;> simp [added, BatcherAction.alerts]
  | b :: history => by
    have ih := added_concat a history
    cases b <;> simp [added, ih]

theorem hasStop_concat (a : BatcherAction α) (history : List (BatcherAction α))
    (h : hasStop history = true) : hasStop (history ++ [a]) = true := by
  induction history with
  | nil => cases h
  | cons b history ih => cases b <;> simp_all [hasStop]

theorem hasStop_concat_stop (history : List (BatcherAction α)) :
    hasStop (history ++ [.stop]) = true := by
  induction history with
  | nil => rfl
  | cons b history ih => cases b <;> simp_all [hasStop]

theorem addedAfterStop_concat (a : BatcherAction α) (history : List (BatcherAction α))
    (h : hasStop history = true) :
    addedAfterStop (history ++ [a]) = addedAfterStop history ++ a.alerts := by
  induction history with
  | nil => cases h
  | cons b history ih => cases b <;> simp_all [hasStop, addedAfterStop, added_concat]

/-- Batches are at most `Size` long and the queue at most `Capacity`. -/
structure WithinBounds (config : BatcherConfig) (b : Batcher α) : Prop where
  emitted : ∀ batch ∈ b.emitted, batch.length ≤ config.size
  inFlight : b.sender.inFlight.length ≤ config.size
  queue : b.queue.length ≤ config.capacity

/-- A sender at its `select` that holds alerts has a token to wake up on. -/
def NeverSleeps (b : Batcher α) : Prop :=
  b.sender = .atSelect → b.queue ≠ [] → b.moreC = true

/-- A sender in its stop branch has seen `Stop`; a closed one holds only later alerts. -/
structure Drained (history : List (BatcherAction α)) (b : Batcher α) : Prop where
  called : b.stopC = true → hasStop history = true
  seen : b.sender.hasStopped = true → b.stopC = true
  later : b.sender = .closed → b.queue <:+ addedAfterStop history

theorem withinBounds_step (hb : WithinBounds config b) (hmove : BatcherMove config b a t) :
   WithinBounds config t := by
  cases hmove with
  | add alerts =>
    refine ⟨hb.emitted, hb.inFlight, ?_⟩
    rw [add_queue]
    exact length_push_le config.capacity b.queue alerts
  | stop => exact ⟨hb.emitted, hb.inFlight, hb.queue⟩
  | next here | drainNext here =>
    obtain ⟨n, hbatch, hrest, hlen⟩ := next_spec config b
    rw [hbatch, hrest]
    refine ⟨hb.emitted, hlen, ?_⟩
    exact Nat.le_trans (List.drop_sublist n b.queue).length_le hb.queue
  | send alerts here | drainSend alerts here =>
    refine ⟨?_, Nat.zero_le _, hb.queue⟩
    intro batch hbatch
    rcases List.mem_append.1 hbatch with hold | hnew
    · exact hb.emitted batch hold
    · have hlen := hb.inFlight
      rw [here] at hlen
      rwa [List.mem_singleton.1 hnew]
  -- The other steps only move the sender between states that hold no batch.
  | _ => exact ⟨hb.emitted, Nat.zero_le _, hb.queue⟩

theorem accounts_step {arrived : List α} (hb : b.ledger.Accounts arrived)
    (hmove : BatcherMove config b a t) :
    t.ledger.Accounts (arrived ++ a.alerts) := by
  cases hmove with
  | add alerts =>
    rw [add_ledger]
    exact hb.arrive config.capacity alerts
  | next here =>
    -- The batch moves from the queue to the sender, which held none.
    obtain ⟨n, hbatch, hrest, -⟩ := next_spec config b
    have htake := hb.take n
    simp only [Batcher.ledger, here, Sender.inFlight, List.append_nil, Ledger.take] at htake
    simpa [hbatch, hrest, Batcher.ledger, Sender.inFlight, BatcherAction.alerts] using htake
  | drainNext here =>
    obtain ⟨n, hbatch, hrest, -⟩ := next_spec config b
    have htake := hb.take n
    simp only [Batcher.ledger, here, Sender.inFlight, List.append_nil, Ledger.take] at htake
    simpa [hbatch, hrest, Batcher.ledger, Sender.inFlight, BatcherAction.alerts] using htake
  | _ => simp_all [Batcher.ledger, Sender.inFlight, BatcherAction.alerts, setMore]

theorem neverSleeps_step (hb : NeverSleeps b) (hmove : BatcherMove config b a t) :
   NeverSleeps t := by
  cases hmove with
  | add alerts => exact fun _ _ => rfl
  | stop => exact hb
  | signal here => exact fun _ _ => rfl
  | recheckEmpty here empty => exact fun _ hqueue => absurd empty hqueue
  -- The other steps end away from the `select`.
  | _ => intro hselect; cases hselect

variable {history : List (BatcherAction α)}

theorem drained_step (hb : Drained history b) (hmove : BatcherMove config b a t) :
    Drained (history ++ [a]) t := by
  cases hmove with
  | add alerts =>
    refine ⟨fun h => hasStop_concat _ _ (hb.called h), hb.seen, ?_⟩
    intro hclosed
    have hclosed : b.sender = .closed := hclosed
    have hstop : hasStop history = true := hb.called (hb.seen (by rw [hclosed]; rfl))
    rw [add_queue, addedAfterStop_concat _ _ hstop]
    -- The queue was a suffix of the later alerts, so it stays one with the new ones behind it.
    obtain ⟨front, hfront⟩ := hb.later hclosed
    have hsuffix : b.queue ++ alerts <:+ addedAfterStop history ++ alerts :=
      ⟨front, by rw [← hfront, List.append_assoc]⟩
    exact (List.drop_suffix _ _).trans hsuffix
  | stop =>
    refine ⟨fun _ => hasStop_concat_stop history, fun _ => rfl, ?_⟩
    intro hclosed
    have hclosed : b.sender = .closed := hclosed
    have hstop : hasStop history = true := hb.called (hb.seen (by rw [hclosed]; rfl))
    have halerts : (BatcherAction.stop : BatcherAction α).alerts = [] := rfl
    rw [addedAfterStop_concat _ _ hstop, halerts, List.append_nil]
    exact hb.later hclosed
  | takeStop here stopped =>
    exact ⟨fun h => hasStop_concat _ _ (hb.called h), fun _ => stopped, nofun⟩
  | next here =>
    obtain ⟨n, hbatch, hrest, -⟩ := next_spec config b
    rw [hbatch, hrest]
    exact ⟨fun h => hasStop_concat _ _ (hb.called h), nofun, nofun⟩
  | drainNext here =>
    obtain ⟨n, hbatch, hrest, -⟩ := next_spec config b
    rw [hbatch, hrest]
    refine ⟨fun h => hasStop_concat _ _ (hb.called h), fun _ => ?_, nofun⟩
    exact hb.seen (by rw [here]; rfl)
  | drainSend alerts here =>
    refine ⟨fun h => hasStop_concat _ _ (hb.called h), fun _ => ?_, nofun⟩
    exact hb.seen (by rw [here]; rfl)
  | drainMore here =>
    refine ⟨fun h => hasStop_concat _ _ (hb.called h), fun _ => ?_, nofun⟩
    exact hb.seen (by rw [here]; rfl)
  | close here empty =>
    refine ⟨fun h => hasStop_concat _ _ (hb.called h), fun _ => ?_, fun _ => ?_⟩
    · exact hb.seen (by rw [here]; rfl)
    · -- The loop condition found the queue empty.
      rw [empty]
      exact List.nil_suffix
  | _ => exact ⟨fun h => hasStop_concat _ _ (hb.called h), nofun, nofun⟩

/-- A step drops alerts only in an `Add` that leaves the queue full of newer ones. -/
theorem dropped_step (hmove : BatcherMove config b a t) :
    ∃ gone, t.dropped = b.dropped ++ gone ∧
      (gone ≠ [] → b.queue ++ a.alerts = gone ++ t.queue ∧ t.queue.length = config.capacity) := by
  cases hmove with
  | add alerts =>
    refine ⟨evicted config.capacity b.queue alerts, add_dropped alerts b, ?_⟩
    intro hgone
    rw [add_queue]
    exact ⟨(evicted_append_push config.capacity b.queue alerts).symm,
      length_push_of_evicted hgone⟩
  | next here =>
    obtain ⟨n, -, hrest, -⟩ := next_spec config b
    rw [hrest]
    exact ⟨[], (List.append_nil _).symm, fun h => absurd rfl h⟩
  | drainNext here =>
    obtain ⟨n, -, hrest, -⟩ := next_spec config b
    rw [hrest]
    exact ⟨[], (List.append_nil _).symm, fun h => absurd rfl h⟩
  | _ => exact ⟨[], (List.append_nil _).symm, fun h => absurd rfl h⟩

/-! ## Runs -/

/-- What holds of the history and the state after every run. -/
structure Sound (config : BatcherConfig) (history : List (BatcherAction α)) (b : Batcher α) :
    Prop where
  bounds : WithinBounds config b
  accounts : b.ledger.Accounts (added history)
  wakes : NeverSleeps b
  drained : Drained history b

theorem sound_new : Sound config [] (Batcher.new : Batcher α) where
  bounds := ⟨nofun, Nat.zero_le _, Nat.zero_le _⟩
  accounts := Ledger.accounts_empty
  wakes := fun _ h => absurd rfl h
  drained := ⟨nofun, nofun, nofun⟩

theorem sound_step (hb : Sound config history b) (h : batcherStep config b a = some t) :
    Sound config (history ++ [a]) t := by
  have hmove := move_of_step h
  refine ⟨withinBounds_step hb.bounds hmove, ?_, neverSleeps_step hb.wakes hmove,
    drained_step hb.drained hmove⟩
  rw [added_concat]
  exact accounts_step hb.accounts hmove

theorem sound_run {b : Batcher α} (hrun : exec (batcherStep config) .new history = some b) :
   Sound config history b :=
  exec_invariant sound_new (fun _ _ _ _ hm hstep => sound_step hm hstep) history b hrun

/-- The batcher is a bounded queue, first in first out, that never sleeps on work. After every
interleaving of `Add` calls, sender steps and `Stop`: batches and queue keep their bounds; the
queue is the newest part of the alerts added and the older part is divided, in order, between what
was sent and what was dropped; a step drops alerts only off the old end, leaving the queue full; a
sender waiting at its `select` with alerts queued has a token; and once the sender has drained and
returned, only alerts added after `Stop` are queued. -/
theorem batcher_bounded_fifo (config : BatcherConfig) (history : List (BatcherAction α))
    (b : Batcher α) (hrun : exec (batcherStep config) .new history = some b) :
    ((∀ batch ∈ b.emitted, batch.length ≤ config.size) ∧ b.queue.length ≤ config.capacity) ∧
      (∃ older, added history = older ++ b.queue ∧
        Splits (b.emitted.flatten ++ b.sender.inFlight) b.dropped older) ∧
      (∀ a t, batcherStep config b a = some t →
        ∃ gone, t.dropped = b.dropped ++ gone ∧
          (gone ≠ [] →
            b.queue ++ a.alerts = gone ++ t.queue ∧ t.queue.length = config.capacity)) ∧
      (b.sender = .atSelect → b.queue ≠ [] → b.moreC = true) ∧
      (b.sender = .closed → b.queue <:+ addedAfterStop history) := by
  have hsound := sound_run hrun
  refine ⟨⟨hsound.bounds.emitted, hsound.bounds.queue⟩, hsound.accounts, ?_, hsound.wakes,
    hsound.drained.later⟩
  exact fun a t hstep => dropped_step (move_of_step hstep)

/-- A run with an overflow, a batch in the loop, a batch in the stop branch and an alert added
after the sender returned. -/
def overflowThenStop : List (BatcherAction Nat) :=
  [.add [1, 2, 3], .takeMore, .next, .send, .queueLen, .setMore, .stop, .takeStop, .queueLen,
    .next, .send, .queueLen, .add [4]]

theorem batcher_bounded_fifo_overflowThenStop :
    ∃ b, exec (batcherStep ⟨2, 1⟩) .new overflowThenStop = some b ∧
      b.queue <:+ addedAfterStop overflowThenStop :=
  ⟨_, rfl, (batcher_bounded_fifo ⟨2, 1⟩ overflowThenStop _ rfl).2.2.2.2 rfl⟩

end Steps

end Signoz.Alertmanager
