import EspNowEdhoc.Device.Completion
import EspNowEdhoc.Device.Final
import EspNowEdhoc.Device.Honest

/-!
# What a step can do

* `Move`: the moves of pairing state and task. `Why`: why a step fails the pairing.
* **`stepped`**: a step does nothing, fails the pairing for a reason, halts the device, or is a
  move.
* **`pairing_diagram`**: the changes of the pairing state that can happen, exactly.
* **`failed_has_cause`**: whenever the pairing has failed, there is a cause among what the board was
  given.
-/

set_option autoImplicit false

namespace EspNowEdhoc

open Runs

variable {L : Lakers}

/-! ## Steps -/

def TaskStep.env : TaskStep L → Env L
  | .input i => i.env
  | .delayOver env => env

/-- The C string whose text a message of this type must hold. -/
def MsgType.text? : MsgType → Option (List UInt8)
  | .ack => some edhocHandshakeAckPayload
  | .keyTest => some keyTestPayload
  | .keyTestAck => some keyTestAckPayload
  | .m1 | .m2 | .m3 => none

/-- The moves of a role: pairing state and place of the task, before and after. -/
inductive Move : Role → PairingState → Pc → PairingState → Pc → Prop
  | start {s : PairingState} (hs : s = .idle ∨ s = .failed) : Move .initiator s .loop .waitM2 .loop
  | message2 : Move .initiator .waitM2 .loop .waitEdhocAck .loop
  | ack (seq : UInt16) :
    Move .initiator .waitEdhocAck .loop .waitKeyTestAck (.keyTestDelay seq)
  | keyTestSent (seq : UInt16) :
    Move .initiator .waitKeyTestAck (.keyTestDelay seq) .waitKeyTestAck .loop
  | keyTestAck : Move .initiator .waitKeyTestAck .loop .complete .loop
  | message1 : Move .responder .waitM1 .loop .waitM3 .loop
  | message3 : Move .responder .waitM3 .loop .waitM3 .switchDelay
  | switched : Move .responder .waitM3 .switchDelay .waitKeyTest .loop
  | keyTest : Move .responder .waitKeyTest .loop .complete .loop

/-- From `d` to `d'` the LMK is exported and handed to the key manager, and a driver call that the
key manager then makes returns another value than `ESP_OK`. -/
structure DriverFails (cfg : Config) (env : Env L) (d d' : Device L) : Prop where
  exported : ∃ ret, ret.status = .ok ∧ d'.calls = d.calls ++ [.exportLmk ret]
  failed : ∃ call ∈ keyManagerCalls env.esp cfg.peerMac d.espNow, env.esp.result call ≠ espOk

/-- Why the step from `d` to `d'` has failed the pairing: it was given a message of another session,
it made a handshake call that was not `OK`, it was given a message without the text of its type, or
it made a driver call that was not `ESP_OK`. -/
inductive Why (cfg : Config) (s : TaskStep L) (d d' : Device L) : Prop
  | foreign (msg : EdhocTransportMsg) (hmsg : msg ∈ receivedMsgs [s])
      (hsid : msg.sessionId ≠ edhocSessionId)
  | call (x : Handshake) (input : List UInt8) (ret : FfiRet L)
      (hcall : d'.calls = d.calls ++ [.handshake x input ret]) (hret : ret.status ≠ .ok)
  | text (msg : EdhocTransportMsg) (t : MsgType) (text : List UInt8)
      (hmsg : msg ∈ receivedMsgs [s]) (htype : msg.type = t.code) (htext : t.text? = some text)
      (hpay : payloadIs msg text = false)
  | driver (h : DriverFails cfg s.env d d')

/-- What a step can do. -/
inductive Stepped (cfg : Config) (s : TaskStep L) (d d' : Device L) : Prop
  | same (hd : d' = d)
  | failed (hstate : d'.state = .failed) (hpc : d'.pc = .loop)
      (hsent : d'.sentFrames = d.sentFrames) (hwhy : Why cfg s d d')
  | halted (hstate : d'.state = d.state) (hpc : d'.pc = .halted)
  | moved (hmove : Move cfg.role d.state d.pc d'.state d'.pc)

section Step

variable {cfg : Config} {env : Env L} {d : Device L} {s : TaskStep L} {msg : EdhocTransportMsg}

theorem calls_transmit (cfg : Config) (env : Env L) (t : MsgType) (seq : UInt16)
    (payload : Option (List UInt8)) (len : ℕ) (d : Device L) :
    (transmit cfg env t seq payload len d).2.calls = d.calls := by
  unfold transmit
  split
  · simp [Device.calls, Device.log, Event.isCall]
  · rfl

theorem calls_log_accepted (d : Device L) (msg : EdhocTransportMsg) :
    (d.log (.accepted msg)).calls = d.calls := by
  simp [Device.calls, Device.log, Event.isCall]

/-- **An exchange** fails at its call, halts the device at its reply, or goes on. -/
theorem exchange_ends {x : Handshake} {input : List UInt8} {ret : FfiRet L}
    {accepted : List (Event L)} (hacc : accepted.filter Event.isCall = []) (t : MsgType)
    (seq : UInt16) (payload : Option (List UInt8)) (len : ℕ) {onFail next : Device L → Device L}
    {P : Device L → Prop} (hfail : ret.status ≠ .ok → P (onFail (d.called x input ret)))
    (hhalt : ∀ d', SameControl d d' → d'.calls = d.calls ++ [.handshake x input ret] →
      P { d' with pc := .halted })
    (hnext : ∀ d', SameControl d d' → d'.calls = d.calls ++ [.handshake x input ret] →
      ret.status = .ok → P (next d')) :
    P (exchange x input ret accepted onFail (transmit cfg env t seq payload len) next d) := by
  unfold exchange
  dsimp only
  split
  · next hret => exact hfail hret
  · next hret =>
    obtain ⟨d', hc, -, hd', heq⟩ := send_eq cfg env t seq payload len
      { d.called x input ret with trace := (d.called x input ret).trace ++ accepted } next
    have hcalls : d'.calls = d.calls ++ [.handshake x input ret] := by
      rw [← hd', calls_transmit, Device.calls, List.filter_append, hacc, List.append_nil]
      simp [Device.called, Device.calls, Event.isCall]
    rcases heq with heq | heq
    · rw [heq]
      exact hnext d' ⟨hc.state, hc.started, hc.pc⟩ hcalls (not_not.mp hret)
    · rw [heq]
      exact hhalt d' ⟨hc.state, hc.started, hc.pc⟩ hcalls

theorem stepped_called {x : Handshake} {input : List UInt8} {ret : FfiRet L}
    (hret : ret.status ≠ .ok) {d' : Device L} (hstate : d'.state = .failed) (hpc : d'.pc = .loop)
    (htrace : d'.trace = (d.called x input ret).trace) : Stepped cfg s d d' := by
  refine .failed hstate hpc ?_ (.call x input ret ?_ hret)
  · rw [Device.sentFrames, htrace]
    simp [Device.called, Device.sentFrames, Event.sent?]
  · rw [Device.calls, htrace]
    simp [Device.called, Device.calls, Event.isCall]

theorem stepped_moved {role : Role} {s₁ s₂ : PairingState} {pc₁ pc₂ : Pc}
    (hmove : Move role s₁ pc₁ s₂ pc₂) (hrole : cfg.role = role) (hs : d.state = s₁)
    (hpc : d.pc = pc₁) {d' : Device L} (hs' : d'.state = s₂) (hpc' : d'.pc = pc₂) :
    Stepped cfg s d d' := .moved (by rw [hrole, hs, hpc, hs', hpc']; exact hmove)

theorem sentFrames_deriveAndInstallLmk (cfg : Config) (env : Env L) (d : Device L) :
    (deriveAndInstallLmk cfg env d).2.sentFrames = d.sentFrames := by
  obtain ⟨err, n', es, hend, heq⟩ := deriveAndInstallLmk_eq cfg env d.session d.espNow
  have hes : es.filterMap Event.sent? = [] := List.filterMap_eq_nil_iff.mpr fun e he => by
    rcases hend.mem e he with ⟨ret, rfl⟩ | ⟨lmk, rfl⟩ <;> rfl
  rw [heq d rfl rfl, Device.sentFrames, List.filterMap_append, hes, List.append_nil]
  rfl

theorem driver_of_install (hphase : d.session.phase? = some .done)
    (herr : (deriveAndInstallLmk cfg env d).1 ≠ espOk) :
    DriverFails cfg env d (deriveAndInstallLmk cfg env d).2 := by
  obtain ⟨err, n', es, hend, heq⟩ := deriveAndInstallLmk_eq cfg env d.session d.espNow
  rw [heq d rfl rfl] at herr ⊢
  cases hend with
  | notExported _ hexp =>
    rw [← Session.exportedLmk?_isSome, hexp] at hphase
    cases hphase
  | @notInstalled ret lmk _ _ _ hret hkm _ =>
    obtain ⟨before, call, hcalls, -, hres⟩ := keyManager_calls env.esp cfg.espnowChannel
      cfg.peerMac (cfg.lmkToInstall lmk) d.espNow
    rw [hkm] at hres
    refine ⟨⟨ret, hret, ?_⟩, call, by rw [hcalls]; exact List.mem_concat_self, by rwa [← hres]⟩
    simp [Device.calls, Event.isCall]
  | installed => exact absurd rfl herr

theorem stepped_startCheck (h : Inv cfg d) (hpc : d.pc = .loop) (tick : UInt32) :
    Stepped cfg s d (startCheck cfg env d tick) := by
  unfold startCheck
  split
  · next hdue =>
    refine exchange_ends (P := Stepped cfg s d) rfl .m1 1 _ _ ?_
      (fun d' hc _ => .halted hc.state rfl) ?_
    · exact fun hret => stepped_called hret rfl hpc rfl
    · exact fun d' hc _ _ => stepped_moved (.start (h.unstarted hdue.1 hdue.2.1)) hdue.1 rfl hpc rfl
        (hc.pc.trans hpc)
  · exact .same rfl

theorem phase_done (h : Inv cfg d) {r : List Milestone}
    (hahead : ahead cfg.role d.pc d.state d.initiatorStarted = some r)
    (hr : phaseAt r = .done) : d.session.phase? = some .done := by
  rw [h.at_ahead.phase r hahead, hr]

theorem stepped_onAwaited (h : Inv cfg d) (hpc : d.pc = .loop) {t : MsgType}
    (hrole : cfg.role = t.receiver) (hs : d.state = t.waiting) (htype : msg.type = t.code) :
    Stepped cfg (.input (.received msg env)) d (onAwaited cfg env msg t d) := by
  have hmsg : msg ∈ receivedMsgs [TaskStep.input (.received msg env)] := List.mem_singleton_self msg
  have htext {text : List UInt8} (htext : t.text? = some text) (hpay : payloadIs msg text = false) :
      Stepped cfg (.input (.received msg env)) d (failPairing d) :=
    .failed rfl hpc rfl (.text msg t text hmsg htype htext hpay)
  cases t with
  | m1 =>
    refine exchange_ends (P := Stepped cfg _ d) rfl .m2 _ _ _ ?_
      (fun d' hc _ => .halted hc.state rfl) ?_
    · exact fun hret => stepped_called hret rfl hpc rfl
    · exact fun d' hc _ _ => stepped_moved .message1 hrole hs hpc rfl (hc.pc.trans hpc)
  | m2 =>
    refine exchange_ends (P := Stepped cfg _ d) rfl .m3 _ _ _ ?_
      (fun d' hc _ => .halted hc.state rfl) ?_
    · exact fun hret => stepped_called hret rfl hpc rfl
    · exact fun d' hc _ _ => stepped_moved .message2 hrole hs hpc rfl (hc.pc.trans hpc)
  | m3 =>
    refine exchange_ends (P := Stepped cfg _ d) rfl .ack (msg.seq + 1)
      (some edhocHandshakeAckPayload) (edhocHandshakeAckPayload.length - 1) ?_
      (fun d' hc _ => .halted hc.state rfl) ?_
    · exact fun hret => stepped_called hret rfl hpc rfl
    · exact fun d' hc _ _ => stepped_moved .message3 hrole hs hpc (hc.state.trans hs) rfl
  | ack =>
    have hphase : d.session.phase? = some .done := by
      refine phase_done h (r := (completionScript .initiator).drop 5) ?_ rfl
      rw [hrole, hpc, hs, h.started hrole (by rw [hs]; decide) (by rw [hs]; decide)]
      rfl
    have hc := sameControl_deriveAndInstallLmk cfg env (d.log (.accepted msg))
    dsimp only [onAwaited, onHandshakeAck]
    split
    · next hack => exact htext rfl hack
    split
    · next herr =>
      have hdriver := driver_of_install (d := d.log (.accepted msg)) hphase herr
      refine .failed rfl (hc.pc.trans hpc) ?_ (.driver ⟨?_, hdriver.failed⟩)
      · refine (sentFrames_deriveAndInstallLmk cfg env (d.log (.accepted msg))).trans ?_
        simp [Device.sentFrames, Device.log, Event.sent?]
      · obtain ⟨ret, hret, hcalls⟩ := hdriver.exported
        exact ⟨ret, hret, hcalls.trans (by rw [calls_log_accepted])⟩
    · exact stepped_moved (.ack (msg.seq + 1)) hrole hs hpc rfl rfl
  | keyTest =>
    dsimp only [onAwaited, onKeyTest]
    split
    · next hpay =>
      rw [verifyControlPayload, if_pos htype] at hpay
      exact htext rfl hpay
    obtain ⟨d', hc, -, -, heq | heq⟩ := send_eq cfg env .keyTestAck (msg.seq + 1)
      (some keyTestAckPayload) (keyTestAckPayload.length - 1) (d.log (.accepted msg))
      fun d => { d with state := .complete }
    · rw [sendControlMessage_keyTestAck, heq]
      exact stepped_moved .keyTest hrole hs hpc rfl (hc.pc.trans hpc)
    · rw [sendControlMessage_keyTestAck, heq]
      exact .halted hc.state rfl
  | keyTestAck =>
    dsimp only [onAwaited, onKeyTestAck]
    split
    · next hpay =>
      rw [verifyControlPayload, htype, if_neg (by decide), if_pos rfl] at hpay
      exact htext rfl hpay
    · exact stepped_moved .keyTestAck hrole hs hpc rfl hpc

theorem stepped_afterDelay (h : Inv cfg d) :
    Stepped cfg (.delayOver env) d (afterDelay cfg env d) := by
  unfold afterDelay
  split
  · next hpc =>
    obtain ⟨hrole, hs⟩ := h.switchDelay hpc
    have hphase : d.session.phase? = some .done := by
      refine phase_done h (r := (completionScript .responder).drop 6) ?_ rfl
      rw [hrole, hpc, hs]
      rfl
    have hc := sameControl_deriveAndInstallLmk cfg env { d with pc := .loop }
    dsimp only
    split
    · next herr =>
      have hdriver := driver_of_install (d := { d with pc := .loop }) hphase herr
      exact .failed rfl hc.pc (sentFrames_deriveAndInstallLmk cfg env { d with pc := .loop })
        (.driver ⟨hdriver.exported, hdriver.failed⟩)
    · exact stepped_moved .switched hrole hs hpc rfl hc.pc
  · next seq hpc =>
    obtain ⟨hrole, hs⟩ := h.keyTestDelay seq hpc
    obtain ⟨d', hc, -, -, heq | heq⟩ := send_eq cfg env .keyTest seq (some keyTestPayload)
      (keyTestPayload.length - 1) { d with pc := .loop } id
    · rw [sendControlMessage_keyTest, heq]
      exact stepped_moved (.keyTestSent seq) hrole hs hpc (hc.state.trans hs) hc.pc
    · rw [sendControlMessage_keyTest, heq]
      exact .halted hc.state rfl
  · exact .same rfl
  · exact .same rfl

/-- **What a step can do.** -/
theorem stepped (h : Inv cfg d) (s : TaskStep L) : Stepped cfg s d (d.step cfg s) := by
  cases s with
  | delayOver env => exact stepped_afterDelay h
  | input i =>
    cases i with
    | startCheck tick env =>
      simp only [Device.step]
      split
      · next hpc => exact stepped_startCheck h hpc tick
      · exact .same rfl
    | received msg env =>
      simp only [Device.step]
      split
      · next hpc =>
        cases handled cfg env msg d with
        | rejected hsid hd =>
          rw [hd]
          exact .failed rfl hpc rfl (.foreign msg (List.mem_singleton_self msg) hsid)
        | ignored _ _ hd => exact .same hd
        | accepted t _ hrole hs htype hd =>
          rw [hd]
          exact stepped_onAwaited h hpc hrole hs htype
      · exact .same rfl

end Step

/-! ## The diagram -/

/-- The pairing states of a role, in the order they are taken. -/
def path : Role → List PairingState
  | .initiator => [.idle, .waitM2, .waitEdhocAck, .waitKeyTestAck, .complete]
  | .responder => [.waitM1, .waitM3, .waitKeyTest, .complete]

/-- The changes of the pairing state: along the path, from all of it to `FAILED`, and back from
there to the start of the initiator. -/
def edges (role : Role) : List (PairingState × PairingState) :=
  (path role).zip (path role).tail ++ (path role).map (·, .failed) ++
    match role with
    | .initiator => [(.failed, .waitM2)]
    | .responder => []

/-- Some board of this role, in some run, goes from `s` to `s'` in one step. -/
def Happens (role : Role) (s s' : PairingState) : Prop :=
  ∃ (L : Lakers) (cfg : Config) (env₀ : Env L) (created : Bool) (bootTick : UInt32) (d₀ : Device L)
    (steps : List (TaskStep L)) (step : TaskStep L), cfg.role = role ∧
    appMain cfg env₀ created bootTick = some d₀ ∧
    (run (Device.step cfg) d₀ steps).state = s ∧
    (run (Device.step cfg) d₀ (steps ++ [step])).state = s'

section Diagram

variable {cfg : Config} {d₀ d : Device L} {env₀ : Env L} {created : Bool} {bootTick : UInt32}

theorem move_mem {role : Role} {s s' : PairingState} {pc pc' : Pc} (h : Move role s pc s' pc') :
    s' ∈ path role ∧ (s ≠ s' → (s, s') ∈ edges role) := by
  cases h with
  | start hs => rcases hs with rfl | rfl <;> decide
  | message2 | message1 | message3 | switched | keyTest | keyTestAck => decide
  | ack seq => decide
  | keyTestSent seq => decide

theorem state_mem (h₀ : appMain cfg env₀ created bootTick = some d₀) (steps : List (TaskStep L)) :
    (run (Device.step cfg) d₀ steps).state ∈ path cfg.role ∨
      (run (Device.step cfg) d₀ steps).state = .failed := by
  have hboot : d₀.state ∈ path cfg.role := by
    rw [(appMain_eq_some h₀).1]
    cases cfg.role <;> decide
  exact (run_inv (I := fun d => Inv cfg d ∧ (d.state ∈ path cfg.role ∨ d.state = .failed))
    (G := fun _ _ => True) ⟨inv_appMain h₀, .inl hboot⟩
    (fun d s h _ => ⟨(next_step h.1 s).inv, by
      cases stepped h.1 s with
      | same hd => rw [hd]; exact h.2
      | failed hstate _ _ _ => exact .inr hstate
      | halted hstate _ => rw [hstate]; exact h.2
      | moved hmove => exact .inl (move_mem hmove).1⟩)
    (allowed_of_forall fun _ _ _ => trivial)).2

end Diagram

def receiveSample (t : MsgType) (seq : UInt16) (payload : List UInt8) : TaskStep Lakers.sample :=
  .input (.received (.ofPayload strangerMac t seq payload) .sample)

/-- Steps that take a sample board to a pairing state. -/
def stepsTo : Role → PairingState → List (TaskStep Lakers.sample)
  | .initiator, s =>
    let all : List (TaskStep Lakers.sample) :=
      [.input (.startCheck 2000 .sample), receiveSample .m2 2 sampleMessage2,
        receiveSample .ack 4 edhocHandshakeAckPayload.dropLast, .delayOver .sample,
        receiveSample .keyTestAck 6 keyTestAckPayload.dropLast]
    match s with
    | .waitM2 => all.take 1
    | .waitEdhocAck => all.take 2
    | .waitKeyTestAck => all.take 3
    | .complete => all
    | _ => []
  | .responder, s =>
    let all : List (TaskStep Lakers.sample) :=
      [receiveSample .m1 1 sampleMessage1, receiveSample .m3 3 sampleMessage3, .delayOver .sample,
        receiveSample .keyTest 5 keyTestPayload.dropLast]
    match s with
    | .waitM3 => all.take 1
    | .waitKeyTest => all.take 3
    | .complete => all
    | _ => []

/-- A run of a sample board to one end of an edge, and the step to the other. -/
def edgeRun (role : Role) :
    PairingState × PairingState → List (TaskStep Lakers.sample) × TaskStep Lakers.sample
  | (s, .failed) =>
    (stepsTo role s ++ [.delayOver .sample], .input (.received foreignMsg .sample))
  | (.failed, _) =>
    ([.input (.received foreignMsg .sample)], .input (.startCheck 2000 .sample))
  | (_, s') => ((stepsTo role s').dropLast, (stepsTo role s').getLastD (.delayOver .sample))

theorem edgeRun_state (role : Role) : ∀ e ∈ edges role,
    (run (Device.step (Config.sample role)) (Device.sample role) (edgeRun role e).1).state = e.1 ∧
    (run (Device.step (Config.sample role)) (Device.sample role)
      ((edgeRun role e).1 ++ [(edgeRun role e).2])).state = e.2 := by
  cases role <;> decide

/-- **The state diagram.** For each role, the changes of the pairing state that some board makes in
some run are exactly the edges: along the path of the role, from each of its states to `FAILED`, and
for the initiator from `FAILED` back to `WAIT_M2`. -/
theorem pairing_diagram (role : Role) {s s' : PairingState} (hne : s ≠ s') :
    Happens role s s' ↔ (s, s') ∈ edges role := by
  constructor
  · rintro ⟨L, cfg, env₀, created, bootTick, d₀, steps, step, rfl, h₀, rfl, rfl⟩
    rw [run_concat] at hne ⊢
    cases stepped (inv_run (inv_appMain h₀) steps) step with
    | same hd => exact absurd (congrArg Device.state hd).symm hne
    | failed hstate _ _ _ =>
      rw [hstate] at hne ⊢
      refine List.mem_append_left _ (List.mem_append_right _ (List.mem_map.mpr ⟨_, ?_, rfl⟩))
      exact (state_mem h₀ steps).resolve_right hne
    | halted hstate _ => exact absurd hstate.symm hne
    | moved hmove => exact (move_mem hmove).2 hne
  · intro he
    obtain ⟨hs, hs'⟩ := edgeRun_state role _ he
    refine ⟨_, _, _, _, _, _, _, _, ?_, appMain_sample role, hs, hs'⟩
    cases role <;> rfl

theorem pairing_diagram_sample : Happens .initiator .failed .waitM2 :=
  (pairing_diagram .initiator (by decide)).mpr (by decide)

/-! ## Failures -/

section Failures

variable {cfg : Config} {d d' : Device L} {steps steps' : List (TaskStep L)}

/-- **Every failure has a cause.** Whenever the pairing has failed, in any run of any board, a step
of the run has failed it for a reason: it was given a message of another session or a message
without the text of its type, a handshake call that it made has returned another status than `OK`,
or a driver call that it made another value than `ESP_OK`. -/
theorem failed_has_cause {env₀ : Env L} {created : Bool} {bootTick : UInt32} {d₀ : Device L}
    (h₀ : appMain cfg env₀ created bootTick = some d₀) (steps : List (TaskStep L)) :
    let d := run (Device.step cfg) d₀ steps
    d.state = .failed → ∃ before s, before ++ [s] <+: steps ∧
      (run (Device.step cfg) d₀ (before ++ [s])).state = .failed ∧
      Why cfg s (run (Device.step cfg) d₀ before) (run (Device.step cfg) d₀ (before ++ [s])) := by
  induction steps using List.reverseRecOn with
  | nil =>
    intro d hs
    rw [show d = d₀ from rfl, (appMain_eq_some h₀).1] at hs
    cases hrole : cfg.role <;> rw [hrole] at hs <;> cases hs
  | append_singleton steps s ih =>
    intro d hs
    have hrun : d = (run (Device.step cfg) d₀ steps).step cfg s := run_concat ..
    have hinv := inv_run (inv_appMain h₀) steps
    -- the step has failed the pairing, or an earlier one has
    have hearlier (hs : (run (Device.step cfg) d₀ steps).state = .failed) :
        ∃ before s', before ++ [s'] <+: steps ++ [s] ∧
          (run (Device.step cfg) d₀ (before ++ [s'])).state = .failed ∧
          Why cfg s' (run (Device.step cfg) d₀ before)
            (run (Device.step cfg) d₀ (before ++ [s'])) := by
      obtain ⟨before, s', hpre, h⟩ := ih hs
      exact ⟨before, s', hpre.trans (List.prefix_append ..), h⟩
    cases stepped hinv s with
    | same hd => exact hearlier (by rw [← hd, ← hrun]; exact hs)
    | failed _ _ _ hwhy =>
      refine ⟨steps, s, List.prefix_rfl, hs, ?_⟩
      rwa [← hrun] at hwhy
    | halted hstate _ => exact hearlier (by rw [← hstate, ← hrun]; exact hs)
    | moved hmove =>
      have hmem := (move_mem hmove).1
      rw [← hrun, hs] at hmem
      cases hrole : cfg.role <;> rw [hrole] at hmem <;> exact absurd hmem (by decide)

end Failures

/-- An initiator whose PMK cannot be set. -/
theorem failed_has_cause_sample :
    let steps := stepsTo .initiator .waitEdhocAck ++ [.input (.received
      (.ofPayload strangerMac .ack 4 edhocHandshakeAckPayload.dropLast)
      ⟨(0 : UInt8), { EspNowRes.ok with setPmk := espFail }⟩)]
    ∃ before s, before ++ [s] <+: steps ∧
      Why (Config.sample .initiator) s
        (run (Device.step (Config.sample .initiator)) (Device.sample .initiator) before)
        (run (Device.step (Config.sample .initiator)) (Device.sample .initiator)
          (before ++ [s])) := by
  intro steps
  obtain ⟨before, s, hpre, -, hwhy⟩ :=
    failed_has_cause (appMain_sample .initiator) steps (by decide)
  exact ⟨before, s, hpre, hwhy⟩

end EspNowEdhoc
