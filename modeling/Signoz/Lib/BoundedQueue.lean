import Mathlib.Data.List.Basic
import Mathlib.Data.List.TakeDrop

/-!
# A bounded queue that drops its oldest elements

Elements arrive in an order; some are taken from the front, and when an arrival would make the
queue longer than its capacity the oldest elements go. A `Ledger` remembers all three outcomes.
`Ledger.Accounts` says that they partition the arrivals, each part in the order of arrival:
what is queued is the newest part of the arrivals, and what came before was taken or dropped.
-/

namespace Lib.BoundedQueue

universe u

variable {α : Type u}

/-- `whole` is divided, element by element and in its order, between `left` and `right`. -/
inductive Splits : List α → List α → List α → Prop
  | nil : Splits [] [] []
  | left (a : α) {l r w : List α} : Splits l r w → Splits (a :: l) r (a :: w)
  | right (a : α) {l r w : List α} : Splits l r w → Splits l (a :: r) (a :: w)

namespace Splits

theorem all_left : ∀ l : List α, Splits l [] l
  | [] => .nil
  | a :: l => .left a (all_left l)

theorem all_right : ∀ r : List α, Splits [] r r
  | [] => .nil
  | a :: r => .right a (all_right r)

theorem append {l r w l' r' w' : List α} (h : Splits l r w) (h' : Splits l' r' w') :
    Splits (l ++ l') (r ++ r') (w ++ w') := by
  induction h with
  | nil => exact h'
  | left a _ ih => exact .left a ih
  | right a _ ih => exact .right a ih

end Splits

/-- The queue after `arrivals` came in: the newest `cap` elements. -/
def push (cap : Nat) (queue arrivals : List α) : List α :=
  (queue ++ arrivals).drop ((queue ++ arrivals).length - cap)

/-- What `push` dropped: the oldest elements over the capacity. -/
def evicted (cap : Nat) (queue arrivals : List α) : List α :=
  (queue ++ arrivals).take ((queue ++ arrivals).length - cap)

theorem evicted_append_push (cap : Nat) (queue arrivals : List α) :
    evicted cap queue arrivals ++ push cap queue arrivals = queue ++ arrivals :=
  List.take_append_drop _ _

theorem length_push_le (cap : Nat) (queue arrivals : List α) :
    (push cap queue arrivals).length ≤ cap := by
  rw [push, List.length_drop]
  omega

/-- Something is dropped only when the kept part fills the capacity. -/
theorem length_push_of_evicted {cap : Nat} {queue arrivals : List α}
    (h : evicted cap queue arrivals ≠ []) : (push cap queue arrivals).length = cap := by
  have hover : (queue ++ arrivals).length - cap ≠ 0 := by
    intro hzero
    apply h
    rw [evicted, hzero, List.take_zero]
  rw [push, List.length_drop]
  omega

/-- Cutting the arrivals to the capacity first and the queue to the room left afterwards is
`push`. -/
theorem trim_append_trim (cap : Nat) (queue arrivals : List α) :
    queue.drop (queue.length + (arrivals.drop (arrivals.length - cap)).length - cap) ++
        arrivals.drop (arrivals.length - cap) =
      push cap queue arrivals := by
  rcases Nat.le_total arrivals.length cap with hfit | hover
  · -- The arrivals fit: only the queue is cut, by the excess.
    have hzero : arrivals.length - cap = 0 := Nat.sub_eq_zero_of_le hfit
    rw [hzero, List.drop_zero, push, List.length_append]
    have hle : queue.length + arrivals.length - cap ≤ queue.length := by omega
    exact (List.drop_append_of_le_length hle).symm
  · -- They do not: they alone fill the capacity and the whole queue goes.
    have hlen : (arrivals.drop (arrivals.length - cap)).length = cap := by
      rw [List.length_drop]
      omega
    have hgone : queue.drop (queue.length + cap - cap) = [] := by
      rw [Nat.add_sub_cancel, List.drop_length]
    have hexcess : queue.length + arrivals.length - cap =
        queue.length + (arrivals.length - cap) := by omega
    rw [hlen, hgone, List.nil_append, push, List.length_append, hexcess, List.drop_append,
      List.drop_eq_nil_of_le (Nat.le_add_right _ _), List.nil_append, Nat.add_sub_cancel_left]

/-- The two cuts drop what `push` drops. -/
theorem take_append_take (cap : Nat) (queue arrivals : List α) :
    queue.take (queue.length + (arrivals.drop (arrivals.length - cap)).length - cap) ++
        arrivals.take (arrivals.length - cap) =
      evicted cap queue arrivals := by
  rw [evicted, List.length_append, List.take_append, List.length_drop]
  rcases Nat.le_total arrivals.length cap with hfit | hover
  · have hzero : arrivals.length - cap = 0 := Nat.sub_eq_zero_of_le hfit
    have hnone : queue.length + arrivals.length - cap - queue.length = 0 := by omega
    rw [hzero, hnone, Nat.sub_zero]
  · have hall : queue.length ≤ queue.length + (arrivals.length - (arrivals.length - cap)) - cap := by
      omega
    have hmore : queue.length ≤ queue.length + arrivals.length - cap := by omega
    have hrest : queue.length + arrivals.length - cap - queue.length = arrivals.length - cap := by
      omega
    rw [List.take_of_length_le hall, List.take_of_length_le hmore, hrest]

/-- What became of the elements that arrived so far. -/
structure Ledger (α : Type u) where
  taken : List α
  dropped : List α
  queue : List α

namespace Ledger

/-- The queue is the newest part of the arrivals; the older part is divided, in order, into
what was taken and what was dropped. -/
def Accounts (ledger : Ledger α) (arrived : List α) : Prop :=
  ∃ older, arrived = older ++ ledger.queue ∧ Splits ledger.taken ledger.dropped older

/-- New arrivals, with the oldest elements over the capacity dropped. -/
def arrive (cap : Nat) (arrivals : List α) (ledger : Ledger α) : Ledger α :=
  { ledger with
    dropped := ledger.dropped ++ evicted cap ledger.queue arrivals
    queue := push cap ledger.queue arrivals }

/-- The `n` oldest elements are taken. -/
def take (n : Nat) (ledger : Ledger α) : Ledger α :=
  { ledger with
    taken := ledger.taken ++ ledger.queue.take n
    queue := ledger.queue.drop n }

theorem accounts_empty : Accounts (⟨[], [], []⟩ : Ledger α) [] := ⟨[], rfl, .nil⟩

theorem Accounts.arrive {ledger : Ledger α} {arrived : List α} (h : ledger.Accounts arrived)
    (cap : Nat) (arrivals : List α) :
    (ledger.arrive cap arrivals).Accounts (arrived ++ arrivals) := by
  obtain ⟨older, rfl, hsplit⟩ := h
  refine ⟨older ++ evicted cap ledger.queue arrivals, ?_, ?_⟩
  · show older ++ ledger.queue ++ arrivals =
      older ++ evicted cap ledger.queue arrivals ++ push cap ledger.queue arrivals
    rw [List.append_assoc, List.append_assoc, evicted_append_push]
  · show Splits ledger.taken (ledger.dropped ++ evicted cap ledger.queue arrivals) _
    have h := hsplit.append (Splits.all_right (evicted cap ledger.queue arrivals))
    rwa [List.append_nil] at h

theorem Accounts.take {ledger : Ledger α} {arrived : List α} (h : ledger.Accounts arrived)
    (n : Nat) : (ledger.take n).Accounts arrived := by
  obtain ⟨older, rfl, hsplit⟩ := h
  refine ⟨older ++ ledger.queue.take n, ?_, ?_⟩
  · show older ++ ledger.queue = older ++ ledger.queue.take n ++ ledger.queue.drop n
    rw [List.append_assoc, List.take_append_drop]
  · show Splits (ledger.taken ++ ledger.queue.take n) ledger.dropped _
    have h := hsplit.append (Splits.all_left (ledger.queue.take n))
    rwa [List.append_nil] at h

end Ledger

end Lib.BoundedQueue
