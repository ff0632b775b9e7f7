import EspNowEdhoc.Lib.Runs

/-!
# Handing a job to a worker task

A caller checks its arguments, puts a job on its stack, creates a worker task for it and waits for a
notification. The worker runs the job on a shared state, stores the result in the job, notifies the
caller and deletes itself. The steps of the two interleave in any way.

* `Sound`, **`sound_run`**: what holds whatever notifications come from elsewhere.
* `Quiet`, **`returned_eq`**, **`job_alive`**: if none come from elsewhere, the call is atomic, and
  the worker uses the job only while its caller waits.
* **`work_step`**, **`done_of_stuck`**: the interleaving ends, and only with both tasks done.
-/

set_option autoImplicit false

namespace Handoff

open Runs

/-! ## Caller and worker -/

/-- A job: the value returned if the arguments are rejected, whether the worker can be created, the
value returned if not, and what the worker runs. -/
structure Job (σ ρ : Type*) where
  rejected : Option ρ
  created : Bool
  initial : ρ
  run : σ → ρ × σ

/-- The job in one piece. -/
def Job.atomic {σ ρ : Type*} (job : Job σ ρ) (s : σ) : ρ × σ :=
  match job.rejected with
  | some r => (r, s)
  | none => if job.created then job.run s else (job.initial, s)

/-- Where the caller is: before the call, waiting for a notification, about to read the result,
back. -/
inductive Caller (ρ : Type*)
  | start | waiting | woken
  | returned (r : ρ)
  deriving DecidableEq

/-- Where the worker is: not created, about to run the job, running it, holding its result, about to
notify, about to delete itself, deleted. -/
inductive Worker (ρ : Type*)
  | absent | ready | running
  | storing (r : ρ)
  | giving | deleting | gone
  deriving DecidableEq

/-- The shared state, the two tasks, the result field of the job and the notification value of the
caller. -/
structure State (σ ρ : Type*) where
  shared : σ
  caller : Caller ρ
  worker : Worker ρ
  result : ρ
  notified : ℕ

/-- A step of the caller (`create`, `take`, `read`), of the worker (`enter`, `commit`, `store`,
`give`, `delete`), or a notification from elsewhere. -/
inductive Act
  | create | take | read
  | enter | commit | store | give | delete
  | stray
  deriving DecidableEq

variable {σ ρ : Type*}

/-- Before the call. -/
def State.init (job : Job σ ρ) (shared : σ) : State σ ρ :=
  { shared := shared, caller := .start, worker := .absent, result := job.initial, notified := 0 }

/-- One step; a step that is not enabled does nothing. -/
def State.step (job : Job σ ρ) (s : State σ ρ) : Act → State σ ρ
  | .create =>
    match s.caller with
    | .start =>
      match job.rejected with
      | some r => { s with caller := .returned r }
      | none =>
        if job.created then { s with caller := .waiting, worker := .ready, result := job.initial }
        else { s with caller := .returned job.initial }
    | .waiting | .woken | .returned _ => s
  | .take =>
    match s.caller with
    | .waiting => if s.notified = 0 then s else { s with caller := .woken, notified := 0 }
    | .start | .woken | .returned _ => s
  | .read =>
    match s.caller with
    | .woken => { s with caller := .returned s.result }
    | .start | .waiting | .returned _ => s
  | .enter =>
    match s.worker with
    | .ready => { s with worker := .running }
    | .absent | .running | .storing _ | .giving | .deleting | .gone => s
  | .commit =>
    match s.worker with
    | .running => { s with shared := (job.run s.shared).2, worker := .storing (job.run s.shared).1 }
    | .absent | .ready | .storing _ | .giving | .deleting | .gone => s
  | .store =>
    match s.worker with
    | .storing r => { s with result := r, worker := .giving }
    | .absent | .ready | .running | .giving | .deleting | .gone => s
  | .give =>
    match s.worker with
    | .giving => { s with notified := s.notified + 1, worker := .deleting }
    | .absent | .ready | .running | .storing _ | .deleting | .gone => s
  | .delete =>
    match s.worker with
    | .deleting => { s with worker := .gone }
    | .absent | .ready | .running | .storing _ | .giving | .gone => s
  | .stray => { s with notified := s.notified + 1 }

/-- What a step can do. -/
inductive Moved (job : Job σ ρ) (s : State σ ρ) : Act → State σ ρ → Prop
  | idle (act : Act) (hact : act ≠ .stray) : Moved job s act s
  | rejected (r : ρ) (hc : s.caller = .start) (hr : job.rejected = some r) :
    Moved job s .create { s with caller := .returned r }
  | uncreated (hc : s.caller = .start) (hr : job.rejected = none) (hcr : job.created = false) :
    Moved job s .create { s with caller := .returned job.initial }
  | created (hc : s.caller = .start) (hr : job.rejected = none) (hcr : job.created = true) :
    Moved job s .create { s with caller := .waiting, worker := .ready, result := job.initial }
  | woken (hc : s.caller = .waiting) (hn : s.notified ≠ 0) :
    Moved job s .take { s with caller := .woken, notified := 0 }
  | read (hc : s.caller = .woken) : Moved job s .read { s with caller := .returned s.result }
  | entered (hw : s.worker = .ready) : Moved job s .enter { s with worker := .running }
  | committed (hw : s.worker = .running) :
    Moved job s .commit
      { s with shared := (job.run s.shared).2, worker := .storing (job.run s.shared).1 }
  | stored (r : ρ) (hw : s.worker = .storing r) :
    Moved job s .store { s with result := r, worker := .giving }
  | gave (hw : s.worker = .giving) :
    Moved job s .give { s with notified := s.notified + 1, worker := .deleting }
  | deleted (hw : s.worker = .deleting) : Moved job s .delete { s with worker := .gone }
  | stray : Moved job s .stray { s with notified := s.notified + 1 }

theorem moved (job : Job σ ρ) (s : State σ ρ) (act : Act) : Moved job s act (s.step job act) := by
  cases act with
  | create =>
    simp only [State.step]
    split
    · next hc =>
      split
      · next r hr => exact .rejected r hc hr
      · next hr =>
        split
        · next hcr => exact .created hc hr hcr
        · next hcr => exact .uncreated hc hr (Bool.not_eq_true _ ▸ hcr)
    all_goals exact .idle _ nofun
  | take =>
    simp only [State.step]
    split
    · next hc =>
      split
      · exact .idle _ nofun
      · next hn => exact .woken hc hn
    all_goals exact .idle _ nofun
  | read =>
    simp only [State.step]
    split
    · next hc => exact .read hc
    all_goals exact .idle _ nofun
  | enter =>
    simp only [State.step]
    split
    · next hw => exact .entered hw
    all_goals exact .idle _ nofun
  | commit =>
    simp only [State.step]
    split
    · next hw => exact .committed hw
    all_goals exact .idle _ nofun
  | store =>
    simp only [State.step]
    split
    · next r hw => exact .stored r hw
    all_goals exact .idle _ nofun
  | give =>
    simp only [State.step]
    split
    · next hw => exact .gave hw
    all_goals exact .idle _ nofun
  | delete =>
    simp only [State.step]
    split
    · next hw => exact .deleted hw
    all_goals exact .idle _ nofun
  | stray => exact .stray

/-! ## With notifications from elsewhere -/

/-- The worker has run the job and stored its result. -/
def Worker.Stored : Worker ρ → Prop
  | .giving | .deleting | .gone => True
  | .absent | .ready | .running | .storing _ => False

/-- The job is accepted and has a worker. -/
def Job.Runs (job : Job σ ρ) : Prop := job.rejected = none ∧ job.created = true

theorem Job.Runs.atomic {job : Job σ ρ} (h : job.Runs) (s : σ) : job.atomic s = job.run s := by
  simp only [Job.atomic, h.1, h.2, if_true]

/-- The shared state and the result field, by the worker's place. -/
def Worker.Sound (job : Job σ ρ) (s₀ shared : σ) (result : ρ) : Worker ρ → Prop
  | .absent | .ready | .running => shared = s₀ ∧ result = job.initial
  | .storing r => (r, shared) = job.run s₀ ∧ result = job.initial
  | .giving | .deleting | .gone => (result, shared) = job.run s₀

/-- What a caller knows, by its place: when it is back, the job was refused, or it has read the
result field before the worker stored its result or after. -/
def Caller.Sound (job : Job σ ρ) (s₀ : σ) (s : State σ ρ) : Caller ρ → Prop
  | .start => s.worker = .absent
  | .waiting | .woken => s.worker ≠ .absent ∧ job.Runs
  | .returned r => s.worker = .absent ∧ ¬ job.Runs ∧ (r, s.shared) = job.atomic s₀ ∨
    (s.worker ≠ .absent ∧ job.Runs) ∧ (r = job.initial ∨ s.worker.Stored ∧ r = s.result)

/-- What holds whatever notifications come. -/
structure Sound (job : Job σ ρ) (s₀ : σ) (s : State σ ρ) : Prop where
  worker : s.worker.Sound job s₀ s.shared s.result
  caller : s.caller.Sound job s₀ s

section Sound

variable {job : Job σ ρ} {s₀ : σ} {s s' : State σ ρ}

theorem Worker.Sound.result_eq {w : Worker ρ} {shared : σ} {result : ρ}
    (h : w.Sound job s₀ shared result) : result = job.initial ∨ w.Stored := by
  cases w with
  | absent | ready | running => exact .inl h.2
  | storing r => exact .inl h.2
  | giving | deleting | gone => exact .inr trivial

theorem Caller.Sound.of_worker {c : Caller ρ} (h : c.Sound job s₀ s) (hw : s.worker ≠ .absent)
    (hw' : s'.worker ≠ .absent) (hstored : s.worker.Stored → s'.worker.Stored)
    (hresult : s.worker.Stored → s'.result = s.result) : c.Sound job s₀ s' := by
  cases c with
  | start => exact absurd h hw
  | waiting | woken => exact ⟨hw', h.2⟩
  | returned r =>
    rcases h with h | h
    · exact absurd h.1 hw
    · exact .inr ⟨⟨hw', h.1.2⟩, h.2.imp_right fun h' =>
        ⟨hstored h'.1, h'.2.trans (hresult h'.1).symm⟩⟩

theorem sound_step (h : Sound job s₀ s) (act : Act) : Sound job s₀ (s.step job act) := by
  generalize hs' : s.step job act = s'
  have hmoved := moved job s act
  rw [hs'] at hmoved
  obtain ⟨hworker, hcaller⟩ := h
  cases hmoved with
  | idle => exact ⟨hworker, hcaller⟩
  | stray => exact ⟨hworker, hcaller⟩
  | rejected r hc hr =>
    rw [hc] at hcaller
    rw [show s.worker = .absent from hcaller] at hworker
    refine ⟨by rw [show s.worker = .absent from hcaller]; exact hworker, .inl ⟨hcaller, ?_, ?_⟩⟩
    · rintro ⟨hnone, -⟩
      rw [hr] at hnone
      cases hnone
    · simp only [Job.atomic, hr, hworker.1]
  | uncreated hc hr hcr =>
    rw [hc] at hcaller
    rw [show s.worker = .absent from hcaller] at hworker
    refine ⟨by rw [show s.worker = .absent from hcaller]; exact hworker, .inl ⟨hcaller, ?_, ?_⟩⟩
    · rintro ⟨-, htrue⟩
      rw [hcr] at htrue
      cases htrue
    · simp [Job.atomic, hr, hcr, hworker.1]
  | created hc hr hcr =>
    rw [hc] at hcaller
    rw [show s.worker = .absent from hcaller] at hworker
    exact ⟨⟨hworker.1, rfl⟩, nofun, hr, hcr⟩
  | woken hc hn =>
    rw [hc] at hcaller
    exact ⟨hworker, hcaller⟩
  | read hc =>
    rw [hc] at hcaller
    exact ⟨hworker, .inr ⟨hcaller, hworker.result_eq.imp_right fun h => ⟨h, rfl⟩⟩⟩
  | entered hw =>
    have hne : s.worker ≠ .absent := by rw [hw]; nofun
    rw [hw] at hworker
    exact ⟨hworker, hcaller.of_worker hne nofun (by rw [hw]; exact id) fun _ => rfl⟩
  | committed hw =>
    have hne : s.worker ≠ .absent := by rw [hw]; nofun
    have hnot : ¬ s.worker.Stored := by rw [hw]; exact id
    rw [hw] at hworker
    refine ⟨⟨?_, hworker.2⟩, hcaller.of_worker hne nofun (absurd · hnot) fun _ => rfl⟩
    rw [hworker.1]
  | stored r hw =>
    have hne : s.worker ≠ .absent := by rw [hw]; nofun
    have hnot : ¬ s.worker.Stored := by rw [hw]; exact id
    rw [hw] at hworker
    exact ⟨hworker.1, hcaller.of_worker hne nofun (absurd · hnot) (absurd · hnot)⟩
  | gave hw =>
    have hne : s.worker ≠ .absent := by rw [hw]; nofun
    rw [hw] at hworker
    exact ⟨hworker, hcaller.of_worker hne nofun (fun _ => trivial) fun _ => rfl⟩
  | deleted hw =>
    have hne : s.worker ≠ .absent := by rw [hw]; nofun
    rw [hw] at hworker
    exact ⟨hworker, hcaller.of_worker hne nofun (fun _ => trivial) fun _ => rfl⟩

theorem stored_step (job : Job σ ρ) (h : s.worker.Stored) (hc : s.caller ≠ .start) (act : Act) :
    (s.step job act).worker.Stored ∧ (s.step job act).caller ≠ .start ∧
      (s.step job act).shared = s.shared := by
  generalize hs' : s.step job act = s'
  have hmoved := moved job s act
  rw [hs'] at hmoved
  cases hmoved with
  | idle | stray => exact ⟨h, hc, rfl⟩
  | rejected r hstart | uncreated hstart | created hstart => exact absurd hstart hc
  | woken | read => exact ⟨h, nofun, rfl⟩
  | entered hw | committed hw | stored r hw => rw [hw] at h; exact h.elim
  | gave | deleted => exact ⟨trivial, hc, rfl⟩

/-- **A caller that is back with another value than the initial one**, which is not a refusal
either, has the result of a job that is over. -/
theorem stored_of_returned (h : Sound job s₀ s) {r : ρ} (hc : s.caller = .returned r)
    (hinitial : r ≠ job.initial) (hrejected : job.rejected ≠ some r) :
    s.worker.Stored ∧ job.Runs ∧ (r, s.shared) = job.run s₀ := by
  obtain ⟨hworker, hcaller⟩ := h
  rw [hc] at hcaller
  rcases hcaller with ⟨-, hnot, heq⟩ | ⟨⟨-, hruns⟩, hr⟩
  · -- a refused job returns one of the two values
    unfold Job.atomic at heq
    split at heq
    · next hr => exact absurd (hr.trans (congrArg some (congrArg Prod.fst heq).symm)) hrejected
    · next hr =>
      split at heq
      · next hcr => exact absurd ⟨hr, hcr⟩ hnot
      · exact absurd (congrArg Prod.fst heq) hinitial
  · obtain ⟨hstored, rfl⟩ := hr.resolve_left hinitial
    refine ⟨hstored, hruns, ?_⟩
    cases hw : s.worker with
    | giving | deleting | gone => rw [hw] at hworker; exact hworker
    | absent | ready | running | storing => rw [hw] at hstored; exact hstored.elim

theorem sound_init (job : Job σ ρ) (s₀ : σ) : Sound job s₀ (.init job s₀) := ⟨⟨rfl, rfl⟩, rfl⟩

theorem sound_run (job : Job σ ρ) (s₀ : σ) (acts : List Act) :
    Sound job s₀ (run (State.step job) (.init job s₀) acts) :=
  run_inv (G := fun _ _ => True) (sound_init job s₀) (fun _ act h _ => sound_step h act)
    (allowed_of_forall fun _ _ _ => trivial)

end Sound

/-! ## Without them -/

/-- The worker still uses the job of its caller. -/
def Worker.HoldsJob : Worker ρ → Prop
  | .ready | .running | .storing _ | .giving => True
  | .absent | .deleting | .gone => False

/-- Nobody but the worker notifies: the caller waits until the worker has stored the result and
given its one notification. -/
def Quiet (s : State σ ρ) : Prop :=
  match s.caller, s.worker with
  | .start, .absent | .returned _, .absent => s.notified = 0
  | .waiting, .ready | .waiting, .running | .waiting, .storing _ | .waiting, .giving =>
    s.notified = 0
  | .waiting, .deleting | .waiting, .gone => s.notified = 1
  | .woken, .deleting | .woken, .gone => s.notified = 0
  | .returned r, .deleting | .returned r, .gone => r = s.result ∧ s.notified = 0
  | _, _ => False

section Quiet

variable {job : Job σ ρ} {s₀ : σ} {s : State σ ρ}

theorem quiet_step (h : Quiet s) {act : Act} (hact : act ≠ .stray) : Quiet (s.step job act) := by
  generalize hs' : s.step job act = s'
  have hmoved := moved job s act
  rw [hs'] at hmoved
  unfold Quiet at h
  cases hmoved with
  | idle => exact h
  | stray => exact absurd rfl hact
  | rejected r hc hr | uncreated hc hr hcr | created hc hr hcr | woken hc hn | read hc =>
    cases hw : s.worker <;> simp_all [Quiet]
  | entered hw | committed hw | stored r hw | gave hw | deleted hw =>
    cases hc : s.caller <;> simp_all [Quiet]

theorem quiet_run (job : Job σ ρ) (s₀ : σ) {acts : List Act} (h : ∀ act ∈ acts, act ≠ .stray) :
    Quiet (run (State.step job) (.init job s₀) acts) :=
  run_inv (G := fun _ act => act ≠ .stray) (s := State.init job s₀) rfl
    (fun _ _ hs hact => quiet_step hs hact) (allowed_of_forall fun _ => h)

/-- **A caller that is back has the result of the whole job**, and the shared state is that of the
job run in one piece. -/
theorem returned_eq (hsound : Sound job s₀ s) (h : Quiet s) {r : ρ} (hc : s.caller = .returned r) :
    (r, s.shared) = job.atomic s₀ := by
  obtain ⟨hworker, hcaller⟩ := hsound
  rw [hc] at hcaller
  unfold Quiet at h
  rw [hc] at h
  rcases hcaller with ⟨-, -, heq⟩ | ⟨⟨hne, hruns⟩, -⟩
  · exact heq
  rw [hruns.atomic]
  cases hw : s.worker with
  | deleting | gone =>
    simp only [hw] at h
    rw [hw] at hworker
    rw [h.1]
    exact hworker
  | absent => exact absurd hw hne
  | ready | running | storing | giving => simp only [hw] at h

/-- **The worker uses the job only while its caller waits.** -/
theorem job_alive (h : Quiet s) (hw : s.worker.HoldsJob) : s.caller = .waiting := by
  unfold Quiet at h
  cases hc : s.caller <;> cases hw' : s.worker <;> simp_all [Worker.HoldsJob]

/-! ## The end -/

/-- The steps that are left at most. -/
def State.work (s : State σ ρ) : ℕ :=
  (match s.caller with | .start => 8 | .waiting => 2 | .woken => 1 | .returned _ => 0) +
    match s.worker with
    | .ready => 5 | .running => 4 | .storing _ => 3 | .giving => 2 | .deleting => 1
    | .absent | .gone => 0

/-- **A step does nothing, or is one of those left.** -/
theorem work_step (h : Quiet s) {act : Act} (hact : act ≠ .stray) :
    s.step job act = s ∨ (s.step job act).work < s.work := by
  generalize hs' : s.step job act = s'
  have hmoved := moved job s act
  rw [hs'] at hmoved
  unfold Quiet at h
  cases hmoved with
  | idle => exact .inl rfl
  | stray => exact absurd rfl hact
  | rejected r hc hr | uncreated hc hr hcr | created hc hr hcr | woken hc hn | read hc =>
    refine .inr ?_
    cases hw : s.worker <;> simp_all [State.work]
  | entered hw | committed hw | stored r hw | gave hw | deleted hw =>
    refine .inr ?_
    simp only [State.work, hw]
    omega

/-- **Only where both are done is nothing left to do.** -/
theorem done_of_stuck (h : Quiet s) (hstuck : ∀ act, act ≠ .stray → s.step job act = s) :
    (∃ r, s.caller = .returned r) ∧ (s.worker = .absent ∨ s.worker = .gone) := by
  have hworker : s.worker = .absent ∨ s.worker = .gone := by
    cases hw : s.worker with
    | absent => exact .inl rfl
    | gone => exact .inr rfl
    | ready =>
      exact absurd (congrArg State.worker (hstuck .enter nofun)) (by simp [State.step, hw])
    | running =>
      exact absurd (congrArg State.worker (hstuck .commit nofun)) (by simp [State.step, hw])
    | storing r =>
      exact absurd (congrArg State.worker (hstuck .store nofun)) (by simp [State.step, hw])
    | giving =>
      exact absurd (congrArg State.worker (hstuck .give nofun)) (by simp [State.step, hw])
    | deleting =>
      exact absurd (congrArg State.worker (hstuck .delete nofun)) (by simp [State.step, hw])
  refine ⟨?_, hworker⟩
  unfold Quiet at h
  cases hc : s.caller with
  | returned r => exact ⟨r, rfl⟩
  | start =>
    refine absurd (congrArg State.caller (hstuck .create nofun)) ?_
    simp only [State.step, hc]
    split
    · nofun
    split
    · nofun
    · nofun
  | woken =>
    exact absurd (congrArg State.caller (hstuck .read nofun)) (by simp [State.step, hc])
  | waiting =>
    -- the notification of the worker is there
    rcases hworker with hw | hw
    · simp only [hc, hw] at h
    · simp only [hc, hw] at h
      exact absurd (congrArg State.caller (hstuck .take nofun)) (by simp [State.step, hc, h])

end Quiet

end Handoff
