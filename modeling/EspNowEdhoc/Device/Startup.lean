import EspNowEdhoc.Device.Task
import EspNowEdhoc.Lib.Handoff

/-!
# The tasks that use `SESSION`

* `initJob`: `__wrap_lakers_edhoc_session_init` and `lakers_init_task` as a job for a worker.
* **`session_init_atomic`**: however the steps of the two interleave, the call is one call of
  `lakers_edhoc_session_init`, the worker does not outlive the job it uses, and both end.
* `Startup`: the rest of `app_main` and `app_task` beside them, which share `SESSION`.
* **`session_serialized`**: no two tasks are ever in a call that uses `SESSION`, and `app_task`
  starts on an initialized session, even if the main task is notified from elsewhere.
-/

set_option autoImplicit false

namespace EspNowEdhoc

open Runs Handoff

variable {L : Lakers}

/-! ## The worker -/

/-- `__wrap_lakers_edhoc_session_init` and its `lakers_init_job_t`; `created` tells whether
`xTaskCreate` succeeds. -/
def initJob (created : Bool) (rng : L.Rng) (role : UInt8) (ownMac peerMac : Option Mac)
    (channel : UInt8) : Job (Session L) Status where
  rejected := if ownMac = none ∨ peerMac = none then some .invalidArgument else none
  created := created
  initial := .protocolError
  run session :=
    let ret := lakersEdhocSessionInit rng role ownMac peerMac channel session
    (ret.status, ret.session)

section Init

variable (created : Bool) (rng : L.Rng) (role : UInt8) (ownMac peerMac : Option Mac)
  (channel : UInt8) (session : Session L)

/-- In one piece, the job is the wrapper. -/
theorem atomic_initJob :
    (initJob created rng role ownMac peerMac channel).atomic session =
      ((wrapLakersEdhocSessionInit created rng role ownMac peerMac channel session).status,
        (wrapLakersEdhocSessionInit created rng role ownMac peerMac channel session).session) := by
  unfold wrapLakersEdhocSessionInit
  split
  · next hnull => simp only [Job.atomic, initJob, if_pos hnull]
  · next hnull =>
    cases created
    · simp [Job.atomic, initJob, if_neg hnull]
    · simp [Job.atomic, initJob, if_neg hnull]

/-- **The initialization is one call.** The main task calls `lakers_edhoc_session_init`, which a
worker task carries out, and nobody else notifies the main task. However their steps interleave:
when the call has returned, its status and `SESSION` are those of one call of the function on the
main task; as long as the worker uses the job on the main task's stack, the main task waits in the
call; each step does nothing or brings both nearer to their end, and nothing is left to do only when
the call has returned and the worker is gone. -/
theorem session_init_atomic {acts : List Handoff.Act} (h : ∀ act ∈ acts, act ≠ .stray) :
    let job := initJob created rng role ownMac peerMac channel
    let s := run (State.step job) (.init job session) acts
    let ret := wrapLakersEdhocSessionInit created rng role ownMac peerMac channel session
    (∀ status, s.caller = .returned status → status = ret.status ∧ s.shared = ret.session) ∧
    (s.worker.HoldsJob → s.caller = .waiting) ∧
    (∀ act, act ≠ .stray → s.step job act = s ∨ (s.step job act).work < s.work) ∧
    ((∀ act, act ≠ .stray → s.step job act = s) →
      (∃ status, s.caller = .returned status) ∧ (s.worker = .absent ∨ s.worker = .gone)) := by
  intro job s ret
  have hquiet : Quiet s := quiet_run job session h
  refine ⟨fun status hc => ?_, job_alive hquiet, fun act hact => work_step hquiet hact,
    done_of_stuck hquiet⟩
  have heq := returned_eq (sound_run job session acts) hquiet hc
  rw [atomic_initJob] at heq
  exact ⟨congrArg Prod.fst heq, congrArg Prod.snd heq⟩

end Init

theorem session_init_atomic_sample :
    let job := initJob (L := Lakers.sample) true (bootRng .initiator) Role.initiator.code
      (some (Config.sample .initiator).ownMac) (some (Config.sample .initiator).peerMac) 1
    let s := run (State.step job) (.init job .empty)
      [.create, .take, .enter, .commit, .take, .store, .give, .take, .delete, .read]
    s.caller = .returned .ok ∧ s.shared = (Device.sample .initiator).session :=
  ⟨rfl, ((session_init_atomic (L := Lakers.sample) true (bootRng .initiator) Role.initiator.code
    (some (Config.sample .initiator).ownMac) (some (Config.sample .initiator).peerMac) 1 .empty
    (by decide)).1 .ok rfl).2⟩

/-- One notification from elsewhere, and the call returns before the worker has begun. -/
example :
    let mac := some (Bytes.zeroed 6)
    let job := initJob (L := Lakers.sample) true (0 : UInt8) 1 mac mac 1
    let s := run (State.step job) (.init job .empty) [.create, .stray, .take, .read]
    s.caller = .returned .protocolError ∧ s.worker = .ready := ⟨rfl, rfl⟩

/-! ## `app_main` and `app_task` -/

/-- Where `app_main` is: in the call or right behind it, in `abort`, or over. -/
inductive Main
  | inInit | aborted | finished
  deriving DecidableEq

/-- Where `app_task` is: not created, outside the Lakers functions, or in one of them. -/
inductive App
  | absent | idle | inCall
  deriving DecidableEq

variable (L) in
/-- The tasks of a board; `SESSION` is the shared state of `init`. -/
structure Startup where
  init : State (Session L) Status
  main : Main
  app : App

variable (L) in
/-- A step of the initialization, of `app_main` behind it, which creates `app_task` if it can, or of
`app_task`, which enters and leaves Lakers functions. -/
inductive StartupAct
  | init (act : Handoff.Act)
  | afterInit (created : Bool)
  | enter
  | leave (call : Call L)

namespace Startup

def boot (job : Job (Session L) Status) : Startup L := ⟨.init job .empty, .inInit, .absent⟩

/-- One step; after `abort` there are none. -/
def step (job : Job (Session L) Status) (s : Startup L) (act : StartupAct L) : Startup L :=
  if s.main = .aborted then s
  else
    match act with
    | .init act => { s with init := s.init.step job act }
    | .afterInit created =>
      match s.main, s.init.caller with
      | .inInit, .returned status =>
        if status ≠ .ok then { s with main := .aborted }
        else if created then { s with main := .finished, app := .idle }
        else { s with main := .aborted }
      | _, _ => s
    | .enter => if s.app = .idle then { s with app := .inCall } else s
    | .leave call =>
      if s.app = .inCall then
        { s with init := { s.init with shared := (call.exec s.init.shared).session }, app := .idle }
      else s

end Startup

/-- Until `app_task` exists only the worker uses `SESSION`; from then on the worker has stored its
result and does not. -/
structure Serialized (job : Job (Session L) Status) (s : Startup L) : Prop where
  before : s.app = .absent → Sound job .empty s.init
  after : s.app ≠ .absent → s.init.worker.Stored ∧ s.init.caller ≠ .start

section Startup

variable {job : Job (Session L) Status} {s : Startup L}

theorem serialized_step (hinitial : job.initial ≠ .ok) (hrejected : job.rejected ≠ some .ok)
    (h : Serialized job s) (act : StartupAct L) : Serialized job (s.step job act) := by
  unfold Startup.step
  split
  · exact h
  cases act with
  | init act =>
    exact ⟨fun happ => sound_step (h.before happ) act, fun happ =>
      let ⟨hstored, hc, _⟩ := stored_step job (h.after happ).1 (h.after happ).2 act
      ⟨hstored, hc⟩⟩
  | afterInit created =>
    dsimp only
    split
    · next status hmain hc =>
      split
      · exact ⟨h.before, h.after⟩
      · next hok =>
        rw [not_not.mp hok] at hc
        split
        · refine ⟨nofun, fun _ => ⟨?_, by rw [hc]; nofun⟩⟩
          by_cases happ : s.app = .absent
          · exact (stored_of_returned (h.before happ) hc hinitial.symm hrejected).1
          · exact (h.after happ).1
        · exact ⟨h.before, h.after⟩
    · exact h
  | enter =>
    dsimp only
    split
    · next happ => exact ⟨nofun, fun _ => h.after (by rw [happ]; nofun)⟩
    · exact h
  | leave call =>
    dsimp only
    split
    · next happ => exact ⟨nofun, fun _ => h.after (by rw [happ]; nofun)⟩
    · exact h

theorem returned_of_created {act : StartupAct L} (happ : s.app = .absent)
    (happ' : (s.step job act).app ≠ .absent) :
    s.init.caller = .returned .ok ∧ (s.step job act).init = s.init := by
  unfold Startup.step at happ' ⊢
  split at happ'
  · exact absurd happ happ'
  next hmain =>
  rw [if_neg hmain]
  cases act with
  | init act => exact absurd happ happ'
  | afterInit created =>
    dsimp only at happ' ⊢
    split at happ'
    · next status _ hc =>
      split at happ'
      · exact absurd happ happ'
      · next hok =>
        rw [not_not.mp hok] at hc
        rw [if_neg hok]
        split
        · exact ⟨hc, rfl⟩
        · exact ⟨hc, rfl⟩
    · exact absurd happ happ'
  | enter =>
    dsimp only at happ'
    rw [happ, if_neg nofun] at happ'
    exact absurd happ happ'
  | leave call =>
    dsimp only at happ'
    rw [happ, if_neg nofun] at happ'
    exact absurd happ happ'

end Startup

/-- **The calls that use `SESSION` are serialized.** `app_main` calls `lakers_edhoc_session_init`
and goes on, and `app_task` calls Lakers functions. However the steps of the three tasks interleave,
and even if the main task is notified from elsewhere: the worker and `app_task` are never both in a
call; once `app_task` exists, the worker has stored its result; and when `app_main` creates
`app_task`, the initialization was successful and `SESSION` holds what one call of the function
leaves in it. -/
theorem session_serialized (created : Bool) (rng : L.Rng) (role : UInt8)
    (ownMac peerMac : Option Mac) (channel : UInt8) (acts : List (StartupAct L)) :
    let job := initJob created rng role ownMac peerMac channel
    let s := run (Startup.step job) (.boot job) acts
    let ret := wrapLakersEdhocSessionInit created rng role ownMac peerMac channel .empty
    ¬ (s.init.worker = .running ∧ s.app = .inCall) ∧
    (s.app ≠ .absent → s.init.worker.Stored) ∧
    ∀ act, s.app = .absent → (s.step job act).app ≠ .absent →
      ret.status = .ok ∧ (s.step job act).init.shared = ret.session := by
  intro job s ret
  have hinitial : job.initial ≠ .ok := nofun
  have hrejected : job.rejected ≠ some .ok := by
    simp only [job, initJob]
    split <;> nofun
  have h : Serialized job s :=
    run_inv (G := fun _ _ => True) (s := Startup.boot job)
      ⟨fun _ => sound_init job .empty, fun happ => absurd rfl happ⟩
      (fun _ act h _ => serialized_step hinitial hrejected h act)
      (allowed_of_forall fun _ _ _ => trivial)
  refine ⟨fun ⟨hrunning, happ⟩ => ?_, fun happ => (h.after happ).1, fun act happ happ' => ?_⟩
  · have hstored := (h.after (by rw [happ]; nofun)).1
    rw [hrunning] at hstored
    exact hstored
  · obtain ⟨hc, hinit⟩ := returned_of_created happ happ'
    obtain ⟨-, hruns, hrun⟩ := stored_of_returned (h.before happ) hc hinitial.symm hrejected
    rw [← hruns.atomic, atomic_initJob] at hrun
    rw [hinit]
    exact ⟨(congrArg Prod.fst hrun).symm, congrArg Prod.snd hrun⟩

/-- The sample initiator boots, and its main task is notified from elsewhere late in the call. -/
theorem session_serialized_sample :
    let job := initJob (L := Lakers.sample) true (bootRng .initiator) Role.initiator.code
      (some (Config.sample .initiator).ownMac) (some (Config.sample .initiator).peerMac) 1
    let s := run (Startup.step job) (.boot job) [.init .create, .init .enter, .init .commit,
      .init .store, .init .stray, .init .take, .init .read]
    (s.step job (.afterInit true)).app = .idle ∧
      (s.step job (.afterInit true)).init.shared = (Device.sample .initiator).session :=
  ⟨rfl, ((session_serialized (L := Lakers.sample) true (bootRng .initiator) Role.initiator.code
    (some (Config.sample .initiator).ownMac) (some (Config.sample .initiator).peerMac) 1
    _).2.2 (.afterInit true) rfl (by decide)).2⟩

end EspNowEdhoc
