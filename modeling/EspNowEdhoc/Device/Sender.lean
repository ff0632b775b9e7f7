import EspNowEdhoc.Device.Boundary

/-!
# Who can drive a pairing

The handler never reads `src_mac`.

* `send_eq`, `exchange_control`: what a checked send and an exchange can do to the control state;
  `transmit_fits`: what a send logs.
* `Received`, **`received`**: a packet is ignored, fails the pairing, or goes to its branch.
* `stranger_drives_pairing`: a frame that does not come from `PEER_MAC` starts the responder.
* **`receive_unchanged_iff`**: which frames change nothing; the source makes no difference.
-/

set_option autoImplicit false

namespace EspNowEdhoc

open Runs Script

variable {L : Lakers}

/-- The pairing state, the session, the peer entry and the frames sent are the same. -/
def Unchanged (cfg : Config) (d d' : Device L) : Prop :=
  d'.state = d.state ∧ d'.session = d.session ∧ d'.entry cfg.peerMac = d.entry cfg.peerMac ∧
    d'.sentFrames = d.sentFrames

/-- A frame that the parser rejects, that the state does not await, or that comes too late to fail
the pairing. -/
def Ignored (cfg : Config) (state : PairingState) (rx : RxPacket) : Prop :=
  ∀ msg, parsedMsg rx = some msg →
    if msg.sessionId = edhocSessionId then (awaited cfg.role state).map MsgType.code ≠ some msg.type
    else state = .failed

section Changes

variable {cfg : Config} {env : Env L} {d : Device L} {msg : EdhocTransportMsg}

theorem afterDelay_of_loop (hpc : d.pc = .loop) : afterDelay cfg env d = d := by
  unfold afterDelay
  rw [hpc]

theorem afterDelay_of_halted (hpc : d.pc = .halted) : afterDelay cfg env d = d := by
  unfold afterDelay
  rw [hpc]

theorem send_eq (cfg : Config) (env : Env L) (t : MsgType) (seq : UInt16)
    (payload : Option (List UInt8)) (len : ℕ) (d : Device L) (next : Device L → Device L) :
    ∃ d', SameControl d d' ∧ d'.session = d.session ∧
      (transmit cfg env t seq payload len d).2 = d' ∧
      (espErrorCheck (transmit cfg env t seq payload len d) next = next d' ∨
        espErrorCheck (transmit cfg env t seq payload len d) next = { d' with pc := .halted }) := by
  refine ⟨(transmit cfg env t seq payload len d).2, sameControl_transmit .., ?_, rfl, ?_⟩
  · unfold transmit
    split <;> rfl
  · unfold espErrorCheck
    split
    · exact .inl rfl
    · exact .inr rfl

theorem exchange_control {x : Handshake} {input : List UInt8} {ret : FfiRet L}
    {accepted : List (Event L)} (t : MsgType) (seq : UInt16) (payload : Option (List UInt8))
    (len : ℕ) {onFail next : Device L → Device L} {P : Device L → Prop}
    (hfail : ∀ d', SameControl d d' → P (onFail d'))
    (hhalt : ∀ d', SameControl d d' → P { d' with pc := .halted })
    (hnext : ∀ d', SameControl d d' → P (next d')) :
    P (exchange x input ret accepted onFail (transmit cfg env t seq payload len) next d) := by
  unfold exchange
  dsimp only
  split
  · exact hfail _ ⟨rfl, rfl, rfl⟩
  · obtain ⟨d', hc, -, -, heq | heq⟩ := send_eq cfg env t seq payload len
      { d.called x input ret with trace := (d.called x input ret).trace ++ accepted } next
    · rw [heq]
      exact hnext d' ⟨hc.state, hc.started, hc.pc⟩
    · rw [heq]
      exact hhalt d' ⟨hc.state, hc.started, hc.pc⟩

theorem transmit_fits (cfg : Config) (env : Env L) (t : MsgType) (seq : UInt16)
    {buffer : List UInt8} {len : ℕ} (hlen : len ≤ 192) (hbuf : len ≤ buffer.length) (d : Device L) :
    transmit cfg env t seq (some buffer) len d =
      (env.esp.send, d.log (.sent
        ⟨cfg.peerMac, frameBytes t.code edhocSessionId seq (buffer.take len),
          d.espNow.peers cfg.peerMac, env.esp.send⟩)) := by
  unfold transmit
  rw [edhocTransportSend_eq env.esp cfg.peerMac t.code edhocSessionId seq hlen hbuf]

theorem sentFrames_transmit (cfg : Config) (env : Env L) (t : MsgType) (seq : UInt16)
    {buffer : List UInt8} {len : ℕ} (hlen : len ≤ 192) (hbuf : len ≤ buffer.length) (d : Device L) :
    (transmit cfg env t seq (some buffer) len d).2.sentFrames ≠ d.sentFrames := by
  rw [transmit_fits cfg env t seq hlen hbuf]
  simp [Device.sentFrames, Device.log, Event.sent?]

theorem afterDelay_session (env : Env L) (d : Device L) :
    (afterDelay cfg env d).session = d.session := by
  unfold afterDelay
  split
  · have hs := deriveAndInstallLmk_session cfg env { d with pc := .loop }
    dsimp only
    split <;> exact hs
  · next seq _ =>
    obtain ⟨d', -, hses, -, heq | heq⟩ := send_eq cfg env .keyTest seq
      (some keyTestPayload) (keyTestPayload.length - 1) { d with pc := .loop } id
    · exact (congrArg Device.session heq).trans hses
    · exact (congrArg Device.session heq).trans hses
  · rfl
  · rfl

theorem afterDelay_keyTestDelay (cfg : Config) (env : Env L) {seq : UInt16}
    (hpc : d.pc = .keyTestDelay seq) : (afterDelay cfg env d).state = d.state ∧
      (afterDelay cfg env d).initiatorStarted = d.initiatorStarted := by
  obtain ⟨d', hc, -, -, heq | heq⟩ := send_eq cfg env .keyTest seq
    (some keyTestPayload) (keyTestPayload.length - 1) { d with pc := .loop } id <;>
  · unfold afterDelay
    rw [hpc]
    exact ⟨(congrArg Device.state heq).trans hc.state,
      (congrArg Device.initiatorStarted heq).trans hc.started⟩

theorem state_ne_of_loop {e : Device L} (hpc : e.pc = .loop) (hs : e.state ≠ d.state) :
    (afterDelay cfg env e).state ≠ d.state := by
  rwa [afterDelay_of_loop hpc]

/-- **An exchange changes something**: it fails the pairing or advances the session. -/
theorem not_unchanged_exchange {x : Handshake} {input : List UInt8} {ret : FfiRet L}
    {output : Option (List UInt8)} {length : Option ℕ} {accepted : List (Event L)} (t : MsgType)
    (seq : UInt16) (payload : Option (List UInt8)) (len : ℕ) {next : Device L → Device L}
    (hpc : d.pc = .loop) (hs : d.state ≠ .failed)
    (hout : HandshakeOutcome x output length d.session ret)
    (hnext : ∀ d : Device L, (next d).session = d.session) :
    ¬ Unchanged cfg d (afterDelay cfg env
      (exchange x input ret accepted failPairing (transmit cfg env t seq payload len) next d)) := by
  unfold exchange
  dsimp only
  split
  · exact fun h => state_ne_of_loop (e := failPairing (d.called x input ret)) hpc hs.symm h.1
  next hok =>
  rw [not_not] at hok
  cases hout with
  | refused hstatus =>
    rcases hstatus with h' | h' | ⟨h', -⟩ <;> rw [hok] at h' <;> cases h'
  | failed hstatus => rw [hok] at hstatus; cases hstatus
  | advanced _ _ hphase _ hphase' =>
    intro hun
    have hses := hun.2.1
    rw [afterDelay_session] at hses
    obtain ⟨d', -, hses', -, heq | heq⟩ := send_eq cfg env t seq payload len
      { d.called x input ret with trace := (d.called x input ret).trace ++ accepted } next
    · rw [heq, hnext, hses'] at hses
      rw [show ret.session = d.session from hses, hphase] at hphase'
      cases x <;> cases hphase'
    · rw [heq] at hses
      rw [show ret.session = d.session from hses'.symm.trans hses, hphase] at hphase'
      cases x <;> cases hphase'

theorem onHandshakeAck_state_ne (hpc : d.pc = .loop) (hs : d.state = .waitEdhocAck) :
    (afterDelay cfg env (onHandshakeAck cfg env msg d)).state ≠ d.state := by
  have hfailed : PairingState.failed ≠ d.state := by rw [hs]; decide
  unfold onHandshakeAck
  split
  · exact state_ne_of_loop hpc hfailed
  have hc := sameControl_deriveAndInstallLmk cfg env (d.log (.accepted msg))
  dsimp only
  split
  · exact state_ne_of_loop (hc.pc.trans hpc) hfailed
  · intro hstate
    have hstate := (afterDelay_keyTestDelay cfg env rfl).1.symm.trans hstate
    rw [hs] at hstate
    cases hstate

theorem onKeyTest_ne (hpc : d.pc = .loop) (hs : d.state = .waitKeyTest) :
    (afterDelay cfg env (onKeyTest cfg env msg d)).state ≠ d.state ∨
      (afterDelay cfg env (onKeyTest cfg env msg d)).sentFrames ≠ d.sentFrames := by
  have hfailed : PairingState.failed ≠ d.state := by rw [hs]; decide
  unfold onKeyTest
  split
  · exact .inl (state_ne_of_loop hpc hfailed)
  obtain ⟨d', hc, -, hd', heq | heq⟩ := send_eq cfg env .keyTestAck (msg.seq + 1)
    (some keyTestAckPayload) (keyTestAckPayload.length - 1) (d.log (.accepted msg))
    fun d => { d with state := .complete }
  · rw [sendControlMessage_keyTestAck, heq]
    exact .inl (state_ne_of_loop (hc.pc.trans hpc) (by rw [hs]; nofun))
  · -- KEY_TEST_ACK has been given to `esp_now_send` all the same
    rw [sendControlMessage_keyTestAck, heq, afterDelay_of_halted rfl]
    have hlog : (d.log (.accepted msg)).sentFrames = d.sentFrames := by
      simp [Device.sentFrames, Device.log, Event.sent?]
    refine .inr fun hsent => sentFrames_transmit cfg env .keyTestAck (msg.seq + 1) ?_ ?_
      (d.log (.accepted msg)) ((congrArg Device.sentFrames hd').trans (hsent.trans hlog.symm))
    · decide
    · decide

theorem onKeyTestAck_state_ne (hpc : d.pc = .loop) (hs : d.state = .waitKeyTestAck) :
    (afterDelay cfg env (onKeyTestAck msg d)).state ≠ d.state := by
  unfold onKeyTestAck
  split
  · exact state_ne_of_loop hpc (by rw [hs]; nofun)
  · exact state_ne_of_loop hpc (by rw [hs]; nofun)

/-- **An awaited message changes something.** -/
theorem not_unchanged_onAwaited (hpc : d.pc = .loop) {t : MsgType} (hs : d.state = t.waiting) :
    ¬ Unchanged cfg d (afterDelay cfg env (onAwaited cfg env msg t d)) := by
  cases t with
  | m1 =>
    exact not_unchanged_exchange .m2 _ _ _ hpc (by rw [hs]; decide) (processMessage1_outcome ..)
      fun _ => rfl
  | m2 =>
    exact not_unchanged_exchange .m3 _ _ _ hpc (by rw [hs]; decide) (processMessage2_outcome ..)
      fun _ => rfl
  | m3 =>
    exact not_unchanged_exchange .ack (msg.seq + 1) (some edhocHandshakeAckPayload)
      (edhocHandshakeAckPayload.length - 1) hpc (by rw [hs]; decide) (processMessage3_outcome ..)
      fun _ => rfl
  | ack => exact fun h => onHandshakeAck_state_ne hpc hs h.1
  | keyTest => exact fun h => (onKeyTest_ne hpc hs).elim (absurd h.1) (absurd h.2.2.2)
  | keyTestAck => exact fun h => onKeyTestAck_state_ne hpc hs h.1

theorem handle_received (hpc : d.pc = .loop) :
    d.handle cfg (.received msg env) =
      afterDelay cfg env (handleReceivedMessage cfg env msg d) := by
  change afterDelay cfg env (if d.pc = .loop then _ else d) = _
  rw [if_pos hpc]

theorem failPairing_of_failed (hs : d.state = .failed) : failPairing d = d := by
  obtain ⟨_, _, _, _, _, _, _⟩ := d
  cases hs
  rfl

/-- What the receive step can do with a packet. -/
inductive Received (cfg : Config) (env : Env L) (rx : RxPacket) (d d' : Device L) : Prop
  | ignored (hig : Ignored cfg d.state rx) (hd : d' = d)
  | rejected (msg : EdhocTransportMsg) (hmsg : parsedMsg rx = some msg)
      (hsid : msg.sessionId ≠ edhocSessionId) (hs : d.state ≠ .failed) (hd : d' = failPairing d)
  | accepted (msg : EdhocTransportMsg) (t : MsgType) (hmsg : parsedMsg rx = some msg)
      (hsid : msg.sessionId = edhocSessionId) (hrole : cfg.role = t.receiver)
      (hs : d.state = t.waiting) (htype : msg.type = t.code)
      (hd : d' = afterDelay cfg env (onAwaited cfg env msg t d))

/-- **Every packet is received in one of three ways.** -/
theorem received (cfg : Config) (env : Env L) (hpc : d.pc = .loop) (rx : RxPacket) :
    Received cfg env rx d (receiveStep cfg env rx d) := by
  unfold receiveStep
  split
  · next hnone => exact .ignored (fun _ hmsg => by rw [hnone] at hmsg; cases hmsg) rfl
  next msg hmsg =>
  have hignored (h : if msg.sessionId = edhocSessionId then
      (awaited cfg.role d.state).map MsgType.code ≠ some msg.type else d.state = .failed) :
      Ignored cfg d.state rx := fun m hm => by
    rw [hmsg] at hm
    cases hm
    exact h
  rw [handle_received hpc]
  cases handled cfg env msg d with
  | rejected hsid hd =>
    rw [hd, afterDelay_of_loop (d := failPairing d) hpc]
    by_cases hs : d.state = .failed
    · exact .ignored (hignored (by rwa [if_neg hsid])) (failPairing_of_failed hs)
    · exact .rejected msg hmsg hsid hs rfl
  | ignored hsid hawait hd =>
    rw [hd, afterDelay_of_loop hpc]
    exact .ignored (hignored (by rwa [if_pos hsid])) rfl
  | accepted t hsid hrole hs htype hd => exact .accepted msg t hmsg hsid hrole hs htype (by rw [hd])

theorem not_ignored_of_rejected {rx : RxPacket} (hmsg : parsedMsg rx = some msg)
    (hsid : msg.sessionId ≠ edhocSessionId) (hs : d.state ≠ .failed) :
    ¬ Ignored cfg d.state rx := fun h => by
  have hm := h msg hmsg
  rw [if_neg hsid] at hm
  exact hs hm

theorem not_ignored_of_accepted {rx : RxPacket} {t : MsgType} (hmsg : parsedMsg rx = some msg)
    (hsid : msg.sessionId = edhocSessionId) (hrole : cfg.role = t.receiver)
    (hs : d.state = t.waiting) (htype : msg.type = t.code) : ¬ Ignored cfg d.state rx := fun h => by
  have hm := h msg hmsg
  rw [if_pos hsid, awaited_eq_some.mpr ⟨hrole, hs⟩, htype] at hm
  exact hm rfl

theorem unchanged_iff_ignored (hpc : d.pc = .loop) (rx : RxPacket) :
    Unchanged cfg d (receiveStep cfg env rx d) ↔ Ignored cfg d.state rx := by
  cases received cfg env hpc rx with
  | ignored hig hd =>
    rw [hd]
    exact iff_of_true ⟨rfl, rfl, rfl, rfl⟩ hig
  | rejected msg hmsg hsid hs hd =>
    rw [hd]
    exact iff_of_false (fun h => hs h.1.symm) (not_ignored_of_rejected hmsg hsid hs)
  | accepted msg t hmsg hsid hrole hs htype hd =>
    rw [hd]
    exact iff_of_false (not_unchanged_onAwaited hpc hs)
      (not_ignored_of_accepted hmsg hsid hrole hs htype)

end Changes

/-! ## The source makes no difference -/

/-- The MAC of a station that is not the configured peer of a sample board. -/
def strangerMac : Mac := ⟨[2, 0, 0, 0, 0, 9], rfl⟩

/-- A message_1 of this station. -/
def strangerFrame : RxPacket :=
  rxPacket strangerMac (frameBytes MsgType.m1.code edhocSessionId 1 [1, 5]) 14

/-- A frame that does not come from `PEER_MAC` takes the responder out of its first state, changes
its session and makes it send a frame. -/
theorem stranger_drives_pairing :
    let cfg := Config.sample .responder
    let d := Device.sample .responder
    let d' := receiveStep cfg Env.sample strangerFrame d
    strangerFrame.srcMac ≠ cfg.peerMac ∧ ¬ Unchanged cfg d d' ∧
      d.state = .waitM1 ∧ d'.state = .waitM3 ∧
      d.session.phase? = some .start ∧ d'.session.phase? = some .waitM3 ∧
      d.sentFrames.length = 0 ∧ d'.sentFrames.length = 1 := by
  refine ⟨by decide, fun h => absurd h.1 (by decide), ?_⟩
  decide

/-- **Which frames change nothing.** In every reachable state, a received frame leaves the pairing
state, the session, the peer entry and the frames sent as they were exactly when the parser rejects
it, or it carries the session identifier with a type that the state does not await, or it carries
another session identifier and the pairing has failed before; whatever its source MAC. -/
theorem receive_unchanged_iff {cfg : Config} {env₀ : Env L} {created : Bool} {bootTick : UInt32}
    {d₀ : Device L} (h₀ : appMain cfg env₀ created bootTick = some d₀) (inputs : List (Input L))
    (env : Env L) (rx : RxPacket) :
    let d := run (Device.handle cfg) d₀ inputs
    d.pc ≠ .halted → (Unchanged cfg d (receiveStep cfg env rx d) ↔ Ignored cfg d.state rx) :=
  fun hhalt => unchanged_iff_ignored
    ((handle_run_pc cfg (appMain_eq_some h₀).2.2.1 inputs).resolve_right hhalt) rx

theorem receive_unchanged_iff_sample :
    ¬ Ignored (Config.sample .responder) .waitM1 strangerFrame := fun h =>
  absurd ((receive_unchanged_iff (appMain_sample .responder) [] Env.sample strangerFrame
    (by decide)).mpr h).1 (by decide)

end EspNowEdhoc
