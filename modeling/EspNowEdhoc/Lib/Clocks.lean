import EspNowEdhoc.Lib.Runs
import Mathlib.Algebra.Order.Group.Defs
import Mathlib.Data.Fintype.Defs

/-!
# Parts of a system that wait

A system takes steps at points of time, and each of its parts may be in a wait of a known length.

* `Timed`: a state with the time, and for each part when it was last seen not to wait.
  `timedStep`: a step at a point of time.
* `OnTime`: time goes on, no wait ends more than `early` before its length is over, and none lasts
  more than `late` beyond it.
* `InOrder`: of two waits at the same time, that of `x` began first. `inOrder_step`: so it stays if
  `x` begins no wait while `y` waits.
* **`InOrder.outlasts`**: then the wait of `y` does not end before that of `x`, if it is longer by
  more than `late` and `early` together.
-/

namespace Clocks

open Runs

/-- A state, the time, and for each part when it was last seen not to wait. -/
structure Timed (σ ι T : Type*) where
  state : σ
  now : T
  since : ι → T

/-- Nothing has happened before the time `t`. -/
def Timed.start {σ ι T : Type*} (s : σ) (t : T) : Timed σ ι T := ⟨s, t, fun _ => t⟩

variable {σ α ι T : Type*} (step : σ → α → σ) (wait : σ → ι → Option T)

/-- A step at a point of time. -/
def timedStep (s : Timed σ ι T) (a : T × α) : Timed σ ι T where
  state := step s.state a.2
  now := a.1
  since x := if (wait s.state x).isSome then s.since x else a.1

/-- **What happens does not depend on when.** -/
theorem run_state (s : Timed σ ι T) (as : List (T × α)) :
    (run (timedStep step wait) s as).state = run step s.state (as.map Prod.snd) := by
  induction as generalizing s with
  | nil => rfl
  | cons a as ih => exact ih _

/-! ## Waits that begin in order -/

/-- If both wait, then `x` has begun first. -/
structure InOrder [LE T] (x y : ι) (s : Timed σ ι T) : Prop where
  le_now : ∀ z, s.since z ≤ s.now
  le : (wait s.state x).isSome → (wait s.state y).isSome → s.since x ≤ s.since y

section Order

variable {step wait} [LinearOrder T] {x y : ι} {s : Timed σ ι T} {a : T × α}

theorem inOrder_start (s : σ) (t : T) : InOrder wait x y (.start s t) :=
  ⟨fun _ => le_rfl, fun _ _ => le_rfl⟩

theorem inOrder_step (h : InOrder wait x y s) (hle : s.now ≤ a.1)
    (hbegin : (wait s.state y).isSome → wait s.state x = none → wait (step s.state a.2) x = none) :
    InOrder wait x y (timedStep step wait s a) where
  le_now z := by
    change (if (wait s.state z).isSome then s.since z else a.1) ≤ a.1
    split
    · exact (h.le_now z).trans hle
    · exact le_rfl
  le hx hy := by
    change (if (wait s.state x).isSome then s.since x else a.1) ≤
      if (wait s.state y).isSome then s.since y else a.1
    split <;> split
    · next hx' hy' => exact h.le hx' hy'
    · exact (h.le_now x).trans hle
    · next hx' hy' =>
      rw [Bool.not_eq_true, Option.isSome_eq_false_iff, Option.isNone_iff_eq_none] at hx'
      change (wait (step s.state a.2) x).isSome at hx
      rw [hbegin hy' hx'] at hx
      cases hx
    · exact le_rfl

end Order

/-! ## Steps on time -/

section OnTime

variable [AddCommGroup T] [LinearOrder T]

/-- The step comes after the last one, ends no wait that has more than `early` to go, and finds no
wait that is over by more than `late`. -/
structure OnTime (early late : T) (s : Timed σ ι T) (a : T × α) : Prop where
  le : s.now ≤ a.1
  notEarly : ∀ x, ∀ d ∈ wait s.state x, wait (step s.state a.2) x = none →
    s.since x + d ≤ a.1 + early
  notLate : ∀ x, ∀ d ∈ wait s.state x, a.1 ≤ s.since x + d + late

instance [Fintype ι] (early late : T) (s : Timed σ ι T) (a : T × α) :
    Decidable (OnTime step wait early late s a) :=
  decidable_of_iff (s.now ≤ a.1 ∧
      (∀ x, ∀ d ∈ wait s.state x, wait (step s.state a.2) x = none → s.since x + d ≤ a.1 + early) ∧
      ∀ x, ∀ d ∈ wait s.state x, a.1 ≤ s.since x + d + late)
    ⟨fun ⟨h₁, h₂, h₃⟩ => ⟨h₁, h₂, h₃⟩, fun ⟨h₁, h₂, h₃⟩ => ⟨h₁, h₂, h₃⟩⟩

variable {step wait} {early late dx dy : T} {x y : ι} {s : Timed σ ι T} {a : T × α}

/-- **The longer wait that began later outlasts the shorter one.** -/
theorem InOrder.outlasts [IsOrderedAddMonoid T] (h : InOrder wait x y s)
    (hon : OnTime step wait early late s a) (hx : wait s.state x = some dx)
    (hy : wait s.state y = some dy) (hgap : dx + late + early < dy) :
    wait (step s.state a.2) y ≠ none := by
  intro hend
  have hbegan : s.since x ≤ s.since y := h.le (by rw [hx]; rfl) (by rw [hy]; rfl)
  refine absurd hgap (not_lt.mpr ?_)
  rw [← add_le_add_iff_left (s.since y)]
  calc s.since y + dy ≤ a.1 + early := hon.notEarly y dy hy hend
    _ ≤ s.since x + dx + late + early := by gcongr; exact hon.notLate x dx hx
    _ ≤ s.since y + dx + late + early := by gcongr
    _ = s.since y + (dx + late + early) := by rw [add_assoc, add_assoc, add_assoc]

end OnTime

end Clocks
