import EspNowEdhoc.Lib.Runs
import Mathlib.Data.List.Infix
import Mathlib.Order.Monotone.Basic

/-!
# Endless runs

* `trail step s as n`: the state after the first `n` of the inputs `as`.
* **`eventually_of_growing`**: a measure that never falls, and grows again while it is below a
  bound, reaches the bound for good.
* **`reaches_head`**: in a queue that is served again and again, every item comes to the head and is
  taken.
-/

namespace Runs

section Trail

variable {σ α : Type*} (step : σ → α → σ)

/-- The state after the first `n` inputs. -/
def trail (s : σ) (as : ℕ → α) (n : ℕ) : σ := run step s ((List.range n).map as)

theorem range_map_succ (as : ℕ → α) (n : ℕ) :
    (List.range (n + 1)).map as = (List.range n).map as ++ [as n] := by
  rw [List.range_succ, List.map_append, List.map_singleton]

theorem trail_succ (s : σ) (as : ℕ → α) (n : ℕ) :
    trail step s as (n + 1) = step (trail step s as n) (as n) := by
  rw [trail, range_map_succ, run_concat, ← trail]

variable {step} in
theorem allowed_trail {G : σ → α → Prop} {s : σ} {as : ℕ → α}
    (h : ∀ n, G (trail step s as n) (as n)) (n : ℕ) :
    Allowed step G s ((List.range n).map as) := by
  induction n with
  | zero => trivial
  | succ n ih =>
    rw [range_map_succ]
    exact allowed_concat.mpr ⟨ih, h n⟩

end Trail

/-- **A measure that keeps growing** below a bound reaches the bound. -/
theorem eventually_of_growing {f : ℕ → ℕ} (bound : ℕ) (hmono : Monotone f)
    (hgrow : ∀ n, f n < bound → ∃ m, f n < f m) : ∃ start, ∀ n, start ≤ n → bound ≤ f n := by
  have hreach (b : ℕ) (hb : b ≤ bound) : ∃ n, b ≤ f n := by
    induction b with
    | zero => exact ⟨0, Nat.zero_le _⟩
    | succ b ih =>
      obtain ⟨n, hn⟩ := ih (Nat.le_of_succ_le hb)
      by_cases hlt : f n < bound
      · obtain ⟨m, hm⟩ := hgrow n hlt
        exact ⟨m, hn.trans_lt hm⟩
      · exact ⟨n, hb.trans (Nat.le_of_not_lt hlt)⟩
  obtain ⟨start, hstart⟩ := hreach bound le_rfl
  exact ⟨start, fun n hn => hstart.trans (hmono hn)⟩

section Queue

variable {β : Type*} (items : ℕ → List β) {served : ℕ → Prop} {start : ℕ}
  (hput : ∀ n, start ≤ n → ¬ served n → items n <+: items (n + 1))
  (hagain : ∀ n, ∃ m, n ≤ m ∧ served m)

include hput hagain

theorem next_served {n : ℕ} (hn : start ≤ n) {front : List β} (hfront : front <+: items n) :
    ∃ m, n ≤ m ∧ served m ∧ front <+: items m := by
  have hwithin (d : ℕ) : ∀ n, start ≤ n → served (n + d) → front <+: items n →
      ∃ m, n ≤ m ∧ served m ∧ front <+: items m := by
    induction d with
    | zero => exact fun n _ hserved hfront => ⟨n, le_rfl, hserved, hfront⟩
    | succ d ih =>
      intro n hn hserved hfront
      by_cases h : served n
      · exact ⟨n, le_rfl, h, hfront⟩
      · obtain ⟨m, hm, hrest⟩ := ih (n + 1) (hn.trans (Nat.le_succ n))
          (by rwa [Nat.add_right_comm]) (hfront.trans (hput n hn h))
        exact ⟨m, (Nat.le_succ n).trans hm, hrest⟩
  obtain ⟨m, hm, hserved⟩ := hagain n
  obtain ⟨d, rfl⟩ := Nat.exists_eq_add_of_le hm
  exact hwithin d n hn hserved hfront

/-- **Every item of a queue is served.** From some point on, items are put in at the end, and again
and again the head is taken. -/
theorem reaches_head (htake : ∀ n, start ≤ n → served n → ∀ y ys, items n = y :: ys →
      items (n + 1) = ys) {y : β} (hy : y ∈ items start) :
    ∃ n, start ≤ n ∧ served n ∧ ∃ ys, items n = y :: ys := by
  have hwait (before : List β) : ∀ n, start ≤ n → before ++ [y] <+: items n →
      ∃ n, start ≤ n ∧ served n ∧ ∃ ys, items n = y :: ys := by
    induction before with
    | nil =>
      intro n hn hfront
      obtain ⟨m, hm, hserved, ys, heq⟩ := next_served items hput hagain hn hfront
      exact ⟨m, hn.trans hm, hserved, ys, heq.symm⟩
    | cons z before ih =>
      intro n hn hfront
      obtain ⟨m, hm, hserved, ys, heq⟩ := next_served items hput hagain hn hfront
      have hnext := htake m (hn.trans hm) hserved z (before ++ [y] ++ ys) heq.symm
      exact ih (m + 1) (by omega) (hnext ▸ List.prefix_append ..)
  obtain ⟨before, ys, heq⟩ := List.append_of_mem hy
  exact hwait before start le_rfl ⟨ys, by rw [heq, List.append_assoc]; rfl⟩

end Queue

end Runs
