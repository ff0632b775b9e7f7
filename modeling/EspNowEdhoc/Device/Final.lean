import EspNowEdhoc.Device.Sender

/-!
# The two final states

* `Inert`: the pairing state and the peer entry stay, nothing is sent and no Lakers function called.
* **`failed_final_iff`**: `FAILED` is final unless a start check that is due finds an initiator that
  failed before it started; `failed_initiator_starts`: such an initiator does start.
* **`complete_final`**: in `COMPLETE` no frame reaches the session, the peer entry or the radio, and
  only a frame of another session leaves it; `foreign_frame_fails_complete`.
-/

set_option autoImplicit false

namespace EspNowEdhoc

open Runs

variable {L : Lakers}

/-! ## Turns of the loop -/

variable (L) in
/-- What one turn of the loop of `app_task` is given: the tick of its start check, the packet that
`espnow_transport_recv` delivers, and the environment of both. -/
structure Turn where
  tick : UInt32
  startEnv : Env L
  rx : Option RxPacket
  env : Env L

def Device.turn (cfg : Config) (d : Device L) (t : Turn L) : Device L :=
  appTaskIteration cfg t.env t.tick t.startEnv t.rx d

/-- The start branch is taken. -/
def StartDue (cfg : Config) (d : Device L) (tick : UInt32) : Prop :=
  cfg.role = .initiator ∧ d.initiatorStarted = false ∧
    tick - d.bootTick ≥ pdMsToTicks cfg.tickRateHz edhocStartDelayMs

instance (cfg : Config) (d : Device L) (tick : UInt32) : Decidable (StartDue cfg d tick) :=
  inferInstanceAs (Decidable (_ ∧ _ ∧ _))

/-- A call of a Lakers handshake or export function. -/
def Event.isCall : Event L → Bool
  | .handshake .. | .exportLmk _ => true
  | .accepted _ | .sent _ | .installed _ => false

/-- The Lakers handshake and export calls of a device, oldest first. -/
def Device.calls (d : Device L) : List (Event L) := d.trace.filter Event.isCall

theorem Grows.calls_le {cfg : Config} {d d' : Device L} (h : Grows cfg d d') :
    d.calls.length ≤ d'.calls.length := (h.trace.filter Event.isCall).length_le

/-- The pairing state, the peer entry, the frames sent and the Lakers calls are the same. -/
def Inert (cfg : Config) (d d' : Device L) : Prop :=
  d'.state = d.state ∧ d'.entry cfg.peerMac = d.entry cfg.peerMac ∧
    d'.sentFrames = d.sentFrames ∧ d'.calls = d.calls

section Turns

variable {cfg : Config} {env : Env L} {d : Device L}

theorem startCheck_of_not_due {tick : UInt32} (h : ¬ StartDue cfg d tick) :
    startCheck cfg env d tick = d := if_neg h

theorem calls_exchange {x : Handshake} {input : List UInt8} {ret : FfiRet L}
    {accepted : List (Event L)} {onFail next : Device L → Device L} (t : MsgType) (seq : UInt16)
    (payload : Option (List UInt8)) (len : ℕ) (hfail : ∀ d : Device L, (onFail d).trace = d.trace)
    (hnext : ∀ d : Device L, (next d).trace = d.trace) :
    d.calls.length < (exchange x input ret accepted onFail (transmit cfg env t seq payload len)
      next d).calls.length := by
  have hcalled : d.calls.length < (d.called x input ret).calls.length := by
    simp [Device.calls, Device.called, Event.isCall]
  have hgrow {d' : Device L} (h : (d.called x input ret).trace <+: d'.trace) :
      d.calls.length < d'.calls.length := hcalled.trans_le (h.filter Event.isCall).length_le
  unfold exchange
  dsimp only
  split
  · exact hgrow ⟨[], by rw [List.append_nil, hfail]⟩
  have htrace : (d.called x input ret).trace <+: (transmit cfg env t seq payload len
      { d.called x input ret with
        trace := (d.called x input ret).trace ++ accepted }).2.trace := by
    rcases At.transmit_eq cfg env t seq payload len { d.called x input ret with
      trace := (d.called x input ret).trace ++ accepted } with ⟨f, heq, -⟩ | ⟨heq, -⟩
    · rw [heq]
      exact (List.prefix_append ..).trans (List.prefix_append ..)
    · rw [heq]
      exact List.prefix_append ..
  unfold espErrorCheck
  split
  · exact hgrow (by rw [hnext]; exact htrace)
  · exact hgrow htrace

theorem calls_startCheck {tick : UInt32} (h : StartDue cfg d tick) :
    d.calls.length < (startCheck cfg env d tick).calls.length := by
  unfold startCheck
  split
  · exact calls_exchange .m1 1 _ _ (fun _ => rfl) fun _ => rfl
  · next hnot => exact absurd h hnot

theorem turn_of_not_due (hpc : d.pc = .loop) {t : Turn L} (h : ¬ StartDue cfg d t.tick) :
    d.turn cfg t = t.rx.elim d fun rx => receiveStep cfg t.env rx d := by
  unfold Device.turn appTaskIteration
  rw [if_neg (not_not.mpr hpc)]
  dsimp only
  rw [startCheck_of_not_due h, if_neg]
  · cases t.rx <;> rfl
  · rintro (hne | ⟨hf, ht, -⟩)
    · exact hne hpc
    · rw [hf] at ht
      cases ht

theorem turn_of_not_loop (hpc : d.pc ≠ .loop) (t : Turn L) : d.turn cfg t = d := if_pos hpc

theorem turns_run (cfg : Config) (d : Device L) (turns : List (Turn L)) :
    ∃ steps, run (Device.turn cfg) d turns = run (Device.step cfg) d steps := by
  induction turns generalizing d with
  | nil => exact ⟨[], rfl⟩
  | cons t ts ih =>
    obtain ⟨steps, -, hturn⟩ := appTaskIteration_run cfg t.env t.tick t.startEnv t.rx d
    obtain ⟨steps', hrun⟩ := ih (d.turn cfg t)
    exact ⟨steps ++ steps', by rw [run_cons, hrun, run_append, ← hturn]; rfl⟩

theorem inv_turns (h : Inv cfg d) (turns : List (Turn L)) :
    Inv cfg (run (Device.turn cfg) d turns) := by
  obtain ⟨steps, hrun⟩ := turns_run cfg d turns
  rw [hrun]
  exact inv_run h steps

theorem grows_turns (h : Inv cfg d) (turns : List (Turn L)) :
    Grows cfg d (run (Device.turn cfg) d turns) := by
  obtain ⟨steps, hrun⟩ := turns_run cfg d turns
  rw [hrun]
  exact grows_run h steps

theorem grows_startCheck_turn (h : Inv cfg d) (hpc : d.pc = .loop) (t : Turn L) :
    Grows cfg (startCheck cfg t.startEnv d t.tick) (d.turn cfg t) := by
  have hinv := (next_startCheck t.startEnv h hpc t.tick).inv
  unfold Device.turn appTaskIteration
  rw [if_neg (not_not.mpr hpc)]
  dsimp only
  split
  · exact .refl _
  cases t.rx with
  | none => exact .refl _
  | some rx =>
    dsimp only [receiveStep]
    split
    · exact .refl _
    · exact grows_run hinv _

/-- **A turn whose start is due calls Lakers.** -/
theorem calls_turn (h : Inv cfg d) (hpc : d.pc = .loop) {t : Turn L}
    (hdue : StartDue cfg d t.tick) : d.calls.length < (d.turn cfg t).calls.length :=
  (calls_startCheck hdue).trans_le (grows_startCheck_turn h hpc t).calls_le

end Turns

/-! ## `FAILED` -/

section Failed

variable {cfg : Config} {env : Env L} {d : Device L}

theorem receiveStep_of_failed (hpc : d.pc = .loop) (hs : d.state = .failed) (rx : RxPacket) :
    receiveStep cfg env rx d = d := by
  cases received cfg env hpc rx with
  | ignored hig hd => exact hd
  | rejected msg hmsg hsid hne => exact absurd hs hne
  | accepted msg t hmsg hsid hrole hst =>
    rw [hs] at hst
    cases t <;> cases hst

theorem turn_of_failed (hs : d.state = .failed) {t : Turn L}
    (h : d.pc = .loop → ¬ StartDue cfg d t.tick) : d.turn cfg t = d := by
  by_cases hpc : d.pc = .loop
  · rw [turn_of_not_due hpc (h hpc)]
    cases t.rx with
    | none => rfl
    | some rx => exact receiveStep_of_failed hpc hs rx
  · exact turn_of_not_loop hpc t

/-- In `FAILED`, turns do nothing exactly as long as no start is due. -/
theorem inert_of_failed_iff (hinv : Inv cfg d) (hs : d.state = .failed) (turns : List (Turn L)) :
    Inert cfg d (run (Device.turn cfg) d turns) ↔
      ∀ t ∈ turns, d.pc = .loop → ¬ StartDue cfg d t.tick := by
  refine ⟨fun hinert => ?_, fun h => ?_⟩
  · induction turns with
    | nil => exact fun _ ht => absurd ht List.not_mem_nil
    | cons t ts ih =>
      rw [run_cons] at hinert
      have hnot (hpc : d.pc = .loop) : ¬ StartDue cfg d t.tick := by
        intro hdue
        have hinv' : Inv cfg (d.turn cfg t) := inv_turns hinv [t]
        have hlt : d.calls.length < (run (Device.turn cfg) (d.turn cfg t) ts).calls.length :=
          (calls_turn hinv hpc hdue).trans_le (grows_turns hinv' ts).calls_le
        rw [hinert.2.2.2] at hlt
        exact lt_irrefl _ hlt
      rw [turn_of_failed hs hnot] at hinert
      rintro t' (_ | ⟨_, ht'⟩)
      · exact hnot
      · exact ih hinert t' ht'
  · rw [run_eq_self fun t ht => turn_of_failed hs (h t ht)]
    exact ⟨rfl, rfl, rfl, rfl⟩

end Failed

/-- A message of another session. -/
def foreignMsg : EdhocTransportMsg :=
  { EdhocTransportMsg.ofPayload strangerMac .m1 1 [1, 5] with sessionId := 0x4321 }

def foreignFrame : RxPacket := 
  rxPacket strangerMac (frameBytes MsgType.m1.code 0x4321 1 [1, 5]) 14

/-- The turn that the sample boards take two seconds after their boot, on this packet. -/
def Turn.sample (rx : Option RxPacket) : Turn Lakers.sample := ⟨2000, .sample, rx, .sample⟩

/-- An initiator that a message of another session fails before its start delay is over starts all
the same: it calls Lakers, sends message_1 and waits for message_2. -/
theorem failed_initiator_starts :
    let cfg := Config.sample .initiator
    let d := run (Device.step cfg) (Device.sample .initiator)
      [.input (.received foreignMsg .sample)]
    let d' := run (Device.turn cfg) d [.sample none]
    d.state = .failed ∧ ¬ Inert cfg d d' ∧ d'.state = .waitM2 ∧
      d.sentFrames.length = 0 ∧ d'.sentFrames.length = 1 ∧
      d.calls.length = 0 ∧ d'.calls.length = 1 := by
  refine ⟨by decide, fun h => absurd h.1 (by decide), ?_⟩
  decide

/-- **`FAILED` is final, but for a start that is still due.** Once the pairing has failed, the turns
that follow leave the pairing state and the peer entry alone, send nothing and call no Lakers
function, exactly as long as no start check in the loop is due: for a responder, for an initiator
that started before it failed, and before the start delay is over. -/
theorem failed_final_iff {cfg : Config} {env₀ : Env L} {created : Bool} {bootTick : UInt32}
    {d₀ : Device L} (h₀ : appMain cfg env₀ created bootTick = some d₀) (steps : List (TaskStep L))
    (turns : List (Turn L)) :
    let d := run (Device.step cfg) d₀ steps
    d.state = .failed → (Inert cfg d (run (Device.turn cfg) d turns) ↔
      ∀ t ∈ turns, d.pc = .loop → ¬ StartDue cfg d t.tick) :=
  fun hs => inert_of_failed_iff (inv_run (inv_appMain h₀) steps) hs turns

theorem failed_final_iff_sample :
    let cfg := Config.sample .responder
    let d := run (Device.step cfg) (Device.sample .responder)
      [.input (.received foreignMsg .sample)]
    Inert cfg d (run (Device.turn cfg) d [.sample none, .sample (some strangerFrame)]) :=
  (failed_final_iff (appMain_sample .responder) [.input (.received foreignMsg .sample)] _
    (by decide)).mpr fun _ _ _ hdue => absurd hdue.1 (by decide)

/-! ## `COMPLETE` -/

def Turn.Foreign (t : Turn L) : Prop :=
  ∃ rx msg, t.rx = some rx ∧ parsedMsg rx = some msg ∧ msg.sessionId ≠ edhocSessionId

section Complete

variable {cfg : Config} {env : Env L} {d : Device L}

theorem turn_of_complete (hpc : d.pc = .loop) (hs : d.state = .complete)
    (hst : cfg.role = .initiator → d.initiatorStarted = true) (t : Turn L) :
    d.turn cfg t = d ∧ ¬ t.Foreign ∨ d.turn cfg t = failPairing d ∧ t.Foreign := by
  have hdue : ¬ StartDue cfg d t.tick := fun h => by
    have hf := h.2.1
    rw [hst h.1] at hf
    cases hf
  rw [turn_of_not_due hpc hdue]
  cases hrx : t.rx with
  | none =>
    refine .inl ⟨rfl, ?_⟩
    rintro ⟨_, _, h, -⟩
    rw [hrx] at h
    cases h
  | some rx =>
    cases received cfg t.env hpc rx with
    | ignored hig hd =>
      refine .inl ⟨hd, ?_⟩
      rintro ⟨rx', msg, h, hmsg, hsid⟩
      rw [hrx] at h
      cases h
      exact not_ignored_of_rejected (d := d) hmsg hsid (by rw [hs]; decide) hig
    | rejected msg hmsg hsid hne hd => exact .inr ⟨hd, rx, msg, hrx, hmsg, hsid⟩
    | accepted msg t' hmsg hsid hrole hst' =>
      rw [hs] at hst'
      cases t' <;> cases hst'

theorem turns_of_complete (hpc : d.pc = .loop) (hs : d.state = .complete)
    (hst : cfg.role = .initiator → d.initiatorStarted = true) (turns : List (Turn L)) :
    run (Device.turn cfg) d turns = d ∧ (∀ t ∈ turns, ¬ t.Foreign) ∨
      run (Device.turn cfg) d turns = failPairing d ∧ ∃ t ∈ turns, t.Foreign := by
  induction turns with
  | nil => exact .inl ⟨rfl, fun _ ht => absurd ht List.not_mem_nil⟩
  | cons t ts ih =>
    rw [run_cons]
    rcases turn_of_complete hpc hs hst t with ⟨heq, hnot⟩ | ⟨heq, hfor⟩
    · rw [heq]
      refine ih.imp (fun h => ⟨h.1, ?_⟩) fun h => ⟨h.1, ?_⟩
      · exact List.forall_mem_cons.mpr ⟨hnot, h.2⟩
      · exact List.exists_mem_cons_of_exists h.2
    · rw [heq]
      refine .inr ⟨run_eq_self fun t' _ => turn_of_failed rfl ?_, t, List.mem_cons_self, hfor⟩
      rintro - ⟨hrole, hf, -⟩
      rw [show d.initiatorStarted = false from hf] at hst
      cases hst hrole

end Complete

/-- A frame of another session takes a board that has completed its pairing to `FAILED`. -/
theorem foreign_frame_fails_complete :
    let cfg := Config.sample .initiator
    let d := run (Device.step cfg) (Device.sample .initiator) (sampleSteps .initiator)
    let d' := run (Device.turn cfg) d [.sample (some foreignFrame)]
    d.state = .complete ∧ d'.state = .failed := by
  decide

/-- **What `COMPLETE` keeps.** Once the pairing is complete, no later frame changes the session or
the peer entry or makes the board send; and the pairing state stays `COMPLETE` as long as no frame
of another session comes, the first of which fails the pairing. -/
theorem complete_final {cfg : Config} {env₀ : Env L} {created : Bool} {bootTick : UInt32}
    {d₀ : Device L} (h₀ : appMain cfg env₀ created bootTick = some d₀) (steps : List (TaskStep L))
    (turns : List (Turn L)) :
    let d := run (Device.step cfg) d₀ steps
    let d' := run (Device.turn cfg) d turns
    d.state = .complete →
      d'.session = d.session ∧ d'.entry cfg.peerMac = d.entry cfg.peerMac ∧
      d'.sentFrames = d.sentFrames ∧
      ((∀ t ∈ turns, ¬ t.Foreign) → d'.state = .complete) ∧
      ((∃ t ∈ turns, t.Foreign) → d'.state = .failed) := by
  intro d d' hs
  have hinv : Inv cfg d := inv_run (inv_appMain h₀) steps
  have hst (hrole : cfg.role = .initiator) : d.initiatorStarted = true :=
    hinv.started hrole (by rw [hs]; decide) (by rw [hs]; decide)
  rcases turns_of_complete (hinv.complete hs) hs hst turns with ⟨heq, hnot⟩ | ⟨heq, hfor⟩
  · rw [show d' = d from heq]
    refine ⟨rfl, rfl, rfl, fun _ => hs, ?_⟩
    rintro ⟨t, ht, hfor⟩
    exact absurd hfor (hnot t ht)
  · rw [show d' = failPairing d from heq]
    refine ⟨rfl, rfl, rfl, fun hnot => ?_, fun _ => rfl⟩
    obtain ⟨t, ht, hfor⟩ := hfor
    exact absurd hfor (hnot t ht)

theorem complete_final_sample :
    let cfg := Config.sample .initiator
    let d := run (Device.step cfg) (Device.sample .initiator) (sampleSteps .initiator)
    (run (Device.turn cfg) d [.sample (some foreignFrame)]).sentFrames = d.sentFrames :=
  (complete_final (appMain_sample .initiator) _ _ (by decide)).2.2.1

end EspNowEdhoc
