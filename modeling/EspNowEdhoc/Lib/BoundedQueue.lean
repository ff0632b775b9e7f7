import EspNowEdhoc.Lib.Runs
import Mathlib.Data.List.Basic

/-!
# Bounded queues

* `BoundedQueue α n`: a first-in first-out queue that never holds more than `n` items.
* `Op`, `Server`: a queue between a sender and a receiver; `admitted`: the items sent while there
  was room. **`taken_append_items`**: what has been taken, followed by what is left, is what was
  admitted.
-/

/-- A queue of at most `n` items, oldest first. -/
structure BoundedQueue (α : Type*) (n : ℕ) where
  items : List α
  length_le : items.length ≤ n

namespace BoundedQueue

variable {α : Type*} {n : ℕ} {q q' : BoundedQueue α n} {x y : α}

/-- The queue without items. -/
def empty : BoundedQueue α n := ⟨[], Nat.zero_le n⟩

/-- There is no room for another item. -/
def Full (q : BoundedQueue α n) : Prop := q.items.length = n

instance (q : BoundedQueue α n) : Decidable q.Full := inferInstanceAs (Decidable (_ = _))

theorem length_concat_le (h : q.items.length < n) : (q.items ++ [x]).length ≤ n := by
  rw [List.length_append, List.length_singleton]
  exact h

/-- Append `x`, unless the queue is full. -/
def push (q : BoundedQueue α n) (x : α) : BoundedQueue α n :=
  if h : q.items.length < n then ⟨q.items ++ [x], length_concat_le h⟩ else q

theorem items_push_of_not_full (h : ¬ q.Full) : (q.push x).items = q.items ++ [x] := by
  have hlt : q.items.length < n := Nat.lt_of_le_of_ne q.length_le h
  simp only [push, dif_pos hlt]

theorem push_of_full (h : q.Full) : q.push x = q := by
  have hlt : ¬ q.items.length < n := by rw [h]; exact Nat.lt_irrefl n
  simp only [push, dif_neg hlt]

theorem mem_push (h : y ∈ (q.push x).items) : y ∈ q.items ∨ y = x := by
  by_cases hq : q.Full
  · rw [push_of_full hq] at h
    exact .inl h
  · rw [items_push_of_not_full hq] at h
    simpa using h

theorem mem_push_of_mem (x : α) (h : y ∈ q.items) : y ∈ (q.push x).items := by
  by_cases hq : q.Full
  · rwa [push_of_full hq]
  · rw [items_push_of_not_full hq]
    exact List.mem_append_left _ h

theorem mem_push_self (h : ¬ q.Full) : x ∈ (q.push x).items := by
  rw [items_push_of_not_full h]
  simp

theorem length_push_le (q : BoundedQueue α n) (x : α) :
    (q.push x).items.length ≤ q.items.length + 1 := by
  by_cases hq : q.Full
  · rw [push_of_full hq]
    exact Nat.le_succ _
  · have hlen : (q.push x).items.length = q.items.length + 1 := by
      rw [items_push_of_not_full hq, List.length_append, List.length_singleton]
    exact Nat.le_of_eq hlen

theorem prefix_push (q : BoundedQueue α n) (x : α) : q.items <+: (q.push x).items := by
  by_cases hq : q.Full
  · exact ⟨[], by rw [push_of_full hq, List.append_nil]⟩
  · rw [items_push_of_not_full hq]
    exact List.prefix_append ..

/-- Take the oldest item. -/
def pop (q : BoundedQueue α n) : Option (α × BoundedQueue α n) :=
  match h : q.items with
  | [] => none
  | x :: xs => some (x, ⟨xs, by have := q.length_le; rw [h, List.length_cons] at this; omega⟩)

theorem pop_eq_some (h : q.pop = some (x, q')) : q.items = x :: q'.items := by
  unfold pop at h
  split at h
  · cases h
  · next hq => cases h; exact hq

theorem pop_eq_none : q.pop = none ↔ q.items = [] := by
  unfold pop
  split <;> simp_all

theorem mem_iff_of_pop (h : q.pop = some (x, q')) : y ∈ q.items ↔ y = x ∨ y ∈ q'.items := by
  rw [pop_eq_some h, List.mem_cons]

theorem head_mem_of_pop (h : q.pop = some (x, q')) : x ∈ q.items :=
  (mem_iff_of_pop h).mpr (.inl rfl)

theorem mem_of_pop (h : q.pop = some (x, q')) (hy : y ∈ q'.items) : y ∈ q.items :=
  (mem_iff_of_pop h).mpr (.inr hy)

theorem length_of_pop (h : q.pop = some (x, q')) : q'.items.length ≤ q.items.length := by
  rw [pop_eq_some h, List.length_cons]
  exact Nat.le_succ _

/-! ## A queue in use -/

/-- A push of the sender or a pop of the receiver. -/
inductive Op (α : Type*)
  | push (x : α)
  | pop

/-- A queue and the items that the receiver has taken from it, oldest first. -/
structure Server (α : Type*) (n : ℕ) where
  queue : BoundedQueue α n
  taken : List α

/-- Nothing has been sent. -/
def Server.init : Server α n := ⟨empty, []⟩

/-- One operation; a pop of an empty queue does nothing. -/
def Server.step (s : Server α n) : Op α → Server α n
  | .push x => { s with queue := s.queue.push x }
  | .pop =>
    match s.queue.pop with
    | none => s
    | some (x, queue) => ⟨queue, s.taken ++ [x]⟩

/-- The items that are sent while fewer than `n` are pending, of which there are `k` at first. -/
def admitted (n : ℕ) : ℕ → List (Op α) → List α
  | _, [] => []
  | k, .push x :: ops => if k < n then x :: admitted n (k + 1) ops else admitted n k ops
  | k, .pop :: ops => admitted n (k - 1) ops

/-- **A bounded queue is a FIFO that drops only when it is full.** -/
theorem taken_append_items (s : Server α n) (ops : List (Op α)) :
    (Runs.run Server.step s ops).taken ++ (Runs.run Server.step s ops).queue.items =
      s.taken ++ s.queue.items ++ admitted n s.queue.items.length ops := by
  induction ops generalizing s with
  | nil => rw [Runs.run_nil, admitted, List.append_nil]
  | cons op ops ih =>
    rw [Runs.run_cons, ih]
    cases op with
    | push x =>
      simp only [Server.step, admitted]
      by_cases hfull : s.queue.Full
      · have hlt : ¬ s.queue.items.length < n := by rw [hfull]; exact Nat.lt_irrefl n
        rw [push_of_full hfull, if_neg hlt]
      · have hlt : s.queue.items.length < n := Nat.lt_of_le_of_ne s.queue.length_le hfull
        rw [items_push_of_not_full hfull, if_pos hlt, List.length_append, List.length_singleton]
        simp only [List.append_assoc, List.singleton_append]
    | pop =>
      simp only [Server.step, admitted]
      split
      · next hnone =>
        rw [pop_eq_none.mp hnone]
        rfl
      · next x queue hsome =>
        rw [pop_eq_some hsome, List.length_cons, Nat.add_sub_cancel]
        simp only [List.append_assoc, List.singleton_append]

end BoundedQueue
