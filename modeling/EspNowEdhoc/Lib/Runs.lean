import Mathlib.Data.List.Induction

/-!
# Runs of a step function

* `Allowed step G s as`: every input of the run meets the guard `G` in the state it is taken in.
* **`run_inv`**, `run_hist_inv`: what one allowed step keeps, an allowed run keeps; in the second
  form the invariant may also read the inputs so far.
* **`run_rel`**: a reflexive and transitive relation between the two ends of each step relates the
  two ends of a run.
* `Inserted p as as'`: `as'` is `as` with inputs that meet `p` put in; **`run_inserted`**: if these
  do nothing in any state of the run, the two runs end alike; `Inserted.filter_eq`.
-/

namespace Runs

variable {σ α : Type*} (step : σ → α → σ)

/-- The state after the inputs `as`. -/
def run (s : σ) (as : List α) : σ := as.foldl step s

@[simp] theorem run_nil (s : σ) : run step s [] = s := rfl

@[simp] theorem run_cons (s : σ) (a : α) (as : List α) :
    run step s (a :: as) = run step (step s a) as := rfl

theorem run_append (s : σ) (as bs : List α) :
    run step s (as ++ bs) = run step (run step s as) bs := List.foldl_append ..

theorem run_concat (s : σ) (as : List α) (a : α) :
    run step s (as ++ [a]) = step (run step s as) a := run_append step s as [a]

/-- Every input meets `G` in the state it is taken in. -/
def Allowed (G : σ → α → Prop) : σ → List α → Prop
  | _, [] => True
  | s, a :: as => G s a ∧ Allowed G (step s a) as

instance decidableAllowed (G : σ → α → Prop) [∀ s a, Decidable (G s a)] :
    ∀ s as, Decidable (Allowed step G s as)
  | _, [] => .isTrue trivial
  | s, a :: as => @instDecidableAnd _ _ _ (decidableAllowed G (step s a) as)

variable {step} {G : σ → α → Prop} {s : σ} {as : List α}

theorem allowed_append {bs : List α} :
    Allowed step G s (as ++ bs) ↔ Allowed step G s as ∧ Allowed step G (run step s as) bs := by
  induction as generalizing s with
  | nil => simp [Allowed]
  | cons a as ih => simp only [List.cons_append, Allowed, ih, run_cons, and_assoc]

theorem allowed_concat {a : α} :
    Allowed step G s (as ++ [a]) ↔ Allowed step G s as ∧ G (run step s as) a := by
  rw [allowed_append]; simp [Allowed]

theorem Allowed.and {H : σ → α → Prop} (hG : Allowed step G s as) (hH : Allowed step H s as) :
    Allowed step (fun s a => G s a ∧ H s a) s as := by
  induction as generalizing s with
  | nil => trivial
  | cons a as ih => exact ⟨⟨hG.1, hH.1⟩, ih hG.2 hH.2⟩

theorem allowed_of_forall (hG : ∀ s, ∀ a ∈ as, G s a) : Allowed step G s as := by
  induction as generalizing s with
  | nil => trivial
  | cons a as ih =>
    exact ⟨hG s a List.mem_cons_self, ih fun s b hb => hG s b (List.mem_cons_of_mem _ hb)⟩

/-- **Step to run, with the inputs so far.** -/
theorem run_hist_inv {I : List α → σ → Prop} (h0 : I [] s)
    (hstep : ∀ as s' a, I as s' → G s' a → I (as ++ [a]) (step s' a))
    (h : Allowed step G s as) : I as (run step s as) := by
  induction as using List.reverseRecOn with
  | nil => exact h0
  | append_singleton as a ih =>
    obtain ⟨has, ha⟩ := allowed_concat.mp h
    rw [run_concat]
    exact hstep as _ a (ih has) ha

/-- **Step to run.** -/
theorem run_inv {I : σ → Prop} (h0 : I s) (hstep : ∀ s' a, I s' → G s' a → I (step s' a))
    (h : Allowed step G s as) : I (run step s as) :=
  run_hist_inv (I := fun _ => I) h0 (fun _ s' a => hstep s' a) h

/-- **The two ends of a run.** The invariant `I` may be used at every step. -/
theorem run_rel {I : σ → Prop} {R : σ → σ → Prop} (hrefl : ∀ s, R s s)
    (htrans : ∀ s₁ s₂ s₃, R s₁ s₂ → R s₂ s₃ → R s₁ s₃) (h0 : I s)
    (hstep : ∀ s' a, I s' → G s' a → I (step s' a) ∧ R s' (step s' a))
    (h : Allowed step G s as) : R s (run step s as) := by
  have hboth : I (run step s as) ∧ R s (run step s as) :=
    run_inv (I := fun s' => I s' ∧ R s s') ⟨h0, hrefl s⟩
      (fun s' a hs ha => ⟨(hstep s' a hs.1 ha).1, htrans _ _ _ hs.2 (hstep s' a hs.1 ha).2⟩) h
  exact hboth.2

/-! ## Inputs that do nothing -/

theorem run_eq_self (h : ∀ a ∈ as, step s a = s) : run step s as = s := by
  induction as with
  | nil => rfl
  | cons a as ih =>
    rw [run_cons, h a List.mem_cons_self]
    exact ih fun b hb => h b (List.mem_cons_of_mem _ hb)

/-- The second list is the first with inputs that meet `p` put in. -/
inductive Inserted (p : α → Prop) : List α → List α → Prop
  | nil : Inserted p [] []
  | keep {as as' : List α} (a : α) (h : Inserted p as as') : Inserted p (a :: as) (a :: as')
  | insert {as as' : List α} {a : α} (ha : p a) (h : Inserted p as as') : Inserted p as (a :: as')

theorem Inserted.filter_eq {p : α → Prop} {as' : List α} {keep : α → Bool}
    (hp : ∀ a, p a → keep a = false) (h : Inserted p as as') :
    as'.filter keep = as.filter keep := by
  induction h with
  | nil => rfl
  | keep a _ ih => rw [List.filter_cons, List.filter_cons, ih]
  | insert ha _ ih => rw [List.filter_cons, hp _ ha, ih]; rfl

/-- **Inserted inputs that do nothing** in any state of a run do not change where it ends. -/
theorem run_inserted {I : σ → Prop} {p : α → Prop} {as' : List α} (h0 : I s)
    (hstep : ∀ s' a, I s' → I (step s' a)) (hskip : ∀ s' a, I s' → p a → step s' a = s')
    (h : Inserted p as as') : run step s as' = run step s as := by
  induction h generalizing s with
  | nil => rfl
  | keep a _ ih => exact ih (hstep s a h0)
  | insert ha _ ih =>
    rw [run_cons, hskip s _ h0 ha]
    exact ih h0

end Runs
