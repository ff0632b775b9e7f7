import EspNowEdhoc.Ffi.Atomicity
import EspNowEdhoc.Lib.Runs
import EspNowEdhoc.Transport.Edhoc

/-!
# The application task, `main.c`

One board runs `app_task` against the Rust session and the ESP-NOW driver.

* `Device`: the pairing state, the session, the driver state, where the task is (`Pc`), and the
  trace of what it has done. A failed `ESP_ERROR_CHECK` halts the device.
* `handleReceivedMessage` runs until the handler returns or enters a `vTaskDelay`; `afterDelay` is
  the rest of the handler. `startCheck` is the start branch of `app_task`, `appMain` the boot.
* `Input`, `TaskStep`, `Device.step`: the device as a machine. `Device.handle` takes one input
  through its delay; `appTaskIteration` is one turn of the loop, and `appTaskIteration_run` makes it
  a run.
-/

set_option autoImplicit false

namespace EspNowEdhoc

open Runs

/-! ## Configuration -/

/-- The build-time configuration of a board, its STA MAC and `configTICK_RATE_HZ`. -/
structure Config where
  /-- `DEVICE_IS_INITIATOR`. -/
  role : Role
  ownMac : Mac
  peerMac : Mac
  espnowChannel : UInt8
  /-- `MILESTONE9_CORRUPT_LMK_FOR_TEST`. -/
  corruptLmk : Bool
  tickRateHz : UInt32

/-- `EDHOC_SESSION_ID`. -/
def edhocSessionId : UInt16 := 0x1234

/-- `EDHOC_START_DELAY_MS`. -/
def edhocStartDelayMs : UInt32 := 2000

/-- `pdMS_TO_TICKS`. -/
def pdMsToTicks (tickRateHz ms : UInt32) : UInt32 := ms * tickRateHz / 1000

/-- The bytes of a C string literal, with its final zero. -/
def cString (s : String) : List UInt8 := s.toList.map (fun c => UInt8.ofNat c.toNat) ++ [0]

/-- `EDHOC_HANDSHAKE_ACK_PAYLOAD`. -/
def edhocHandshakeAckPayload : List UInt8 := cString "LAKERS_EDHOC_COMPLETE"

/-- `KEY_TEST_PAYLOAD`. -/
def keyTestPayload : List UInt8 := cString "ENCRYPTED_KEY_TEST_FROM_INITIATOR"

/-- `KEY_TEST_ACK_PAYLOAD`. -/
def keyTestAckPayload : List UInt8 := cString "ENCRYPTED_KEY_TEST_ACK_FROM_RESPONDER"

/-- `pairing_state_t`. -/
inductive PairingState
  | idle | waitM1 | waitM2 | waitM3 | waitEdhocAck | waitKeyTest | waitKeyTestAck | complete
  | failed
  deriving DecidableEq, Repr

/-- `mac_is_all_value`. -/
def macIsAllValue (mac : Mac) (value : UInt8) : Bool := mac.toList.all (· = value)

/-- `peer_mac_is_configured`. -/
def peerMacIsConfigured (mac : Mac) : Bool :=
  if macIsAllValue mac 0x00 || macIsAllValue mac 0xFF then false
  else (mac.get 0 &&& 0x01) == 0

/-! ## The device -/

/-- Where the application task is. -/
inductive Pc
  /-- At the top of the loop of `app_task`. -/
  | loop
  /-- In the responder's `vTaskDelay` between the ACK and the installation of the LMK. -/
  | switchDelay
  /-- In the initiator's `vTaskDelay` before a KEY_TEST with this sequence number. -/
  | keyTestDelay (seq : UInt16)
  /-- After a failed `ESP_ERROR_CHECK`. -/
  | halted
  deriving DecidableEq, Repr

variable (L : Lakers)

/-- What the device does, in order. -/
inductive Event
  /-- A handshake call with its input bytes. -/
  | handshake (h : Handshake) (input : List UInt8) (ret : FfiRet L)
  /-- A call of `lakers_edhoc_export_espnow_lmk`. -/
  | exportLmk (ret : FfiRet L)
  /-- The handler logs that it accepts or has verified this message. -/
  | accepted (msg : EdhocTransportMsg)
  | sent (frame : SentFrame)
  /-- `derive_and_install_lmk` returns `ESP_OK`. -/
  | installed (lmk : Lmk)

/-- A board after `app_main`. -/
structure Device where
  state : PairingState
  initiatorStarted : Bool
  bootTick : UInt32
  session : Session L
  espNow : EspNow
  pc : Pc
  trace : List (Event L)

/-- What the environment contributes to one step: the random bytes of the Rust side and the results
of the driver calls. -/
structure Env where
  rng : L.Rng
  esp : EspNowRes

/-- A start-timer check at a tick, or a message given to the handler. -/
inductive Input
  | startCheck (tick : UInt32) (env : Env L)
  | received (msg : EdhocTransportMsg) (env : Env L)

/-- The task takes an input until it is back in its loop or enters a `vTaskDelay`, or such a delay
is over. -/
inductive TaskStep
  | input (i : Input L)
  | delayOver (env : Env L)

variable {L}

/-- What the environment contributes to an input. -/
def Input.env : Input L → Env L
  | .startCheck _ env => env
  | .received _ env => env

/-- An input, handled through its delay. -/
def Input.steps (i : Input L) : List (TaskStep L) := [.input i, .delayOver i.env]

def Event.sent? : Event L → Option SentFrame
  | .sent f => some f
  | _ => none

namespace Device

def log (d : Device L) (e : Event L) : Device L := { d with trace := d.trace ++ [e] }

/-- Store what a handshake call left, and log the call. -/
def called (d : Device L) (h : Handshake) (input : List UInt8) (ret : FfiRet L) : Device L :=
  { d with session := ret.session, trace := d.trace ++ [.handshake h input ret] }

/-- The frames given to `esp_now_send`, oldest first. -/
def sentFrames (d : Device L) : List SentFrame := d.trace.filterMap Event.sent?

/-- The peer table entry of a MAC. -/
def entry (d : Device L) (mac : Mac) : Option PeerInfo := d.espNow.peers mac

end Device

/-- `ESP_ERROR_CHECK(r); k`. -/
def espErrorCheck (r : EspErr × Device L) (k : Device L → Device L) : Device L :=
  if r.1 = espOk then k r.2 else { r.2 with pc := .halted }

variable (cfg : Config) (env : Env L)

/-- `edhoc_transport_send` to `PEER_MAC` under `EDHOC_SESSION_ID`. -/
def transmit (type : MsgType) (seq : UInt16) (payload : Option (List UInt8)) (payloadLen : ℕ)
    (d : Device L) : EspErr × Device L :=
  match edhocTransportSend env.esp (some cfg.peerMac) type.code edhocSessionId seq payload
    payloadLen d.espNow with
  | (err, some frame) => (err, d.log (.sent frame))
  | (err, none) => (err, d)

/-- `send_edhoc_payload`. -/
def sendEdhocPayload (type : MsgType) (seq : UInt16) (payload : Option (List UInt8))
    (payloadLen : ℕ) (d : Device L) : EspErr × Device L :=
  transmit cfg env type seq payload payloadLen d

/-- `send_handshake_ack`. -/
def sendHandshakeAck (seq : UInt16) (d : Device L) : EspErr × Device L :=
  sendEdhocPayload cfg env .ack seq (some edhocHandshakeAckPayload)
    (edhocHandshakeAckPayload.length - 1) d

/-- `send_control_message`. -/
def sendControlMessage (type : MsgType) (seq : UInt16) (d : Device L) : EspErr × Device L :=
  match type with
  | .keyTest => transmit cfg env type seq (some keyTestPayload) (keyTestPayload.length - 1) d
  | .keyTestAck =>
    transmit cfg env type seq (some keyTestAckPayload) (keyTestAckPayload.length - 1) d
  | _ => (espErrInvalidArg, d)

theorem sendControlMessage_keyTest (seq : UInt16) (d : Device L) :
    sendControlMessage cfg env .keyTest seq d =
      transmit cfg env .keyTest seq (some keyTestPayload) (keyTestPayload.length - 1) d := rfl

theorem sendControlMessage_keyTestAck (seq : UInt16) (d : Device L) :
    sendControlMessage cfg env .keyTestAck seq d =
      transmit cfg env .keyTestAck seq (some keyTestAckPayload) (keyTestAckPayload.length - 1) d :=
  rfl

/-- `msg->payload_len` is `expected`'s length without its final zero, and the bytes agree. -/
def payloadIs (msg : EdhocTransportMsg) (expected : List UInt8) : Bool :=
  msg.payloadLen.toNat = expected.length - 1 ∧
    msg.payload.toList.take (expected.length - 1) = expected.take (expected.length - 1)

/-- `verify_handshake_ack`. -/
def verifyHandshakeAck (msg : EdhocTransportMsg) : Bool := payloadIs msg edhocHandshakeAckPayload

/-- `verify_control_payload`. -/
def verifyControlPayload (msg : EdhocTransportMsg) : Bool :=
  if msg.type = MsgType.keyTest.code then payloadIs msg keyTestPayload
  else if msg.type = MsgType.keyTestAck.code then payloadIs msg keyTestAckPayload
  else false

/-- The LMK with byte 0 flipped when `MILESTONE9_CORRUPT_LMK_FOR_TEST` is set. -/
def Config.lmkToInstall (cfg : Config) (lmk : Lmk) : Lmk :=
  if cfg.corruptLmk then lmk.modify 0 (· ^^^ 0x01) else lmk

/-- `derive_and_install_lmk`. -/
def deriveAndInstallLmk (d : Device L) : EspErr × Device L :=
  let lmk := List.replicate 16 0
  let ret := lakersEdhocExportEspnowLmk (some lmk) d.session
  let d := { d with session := ret.session, trace := d.trace ++ [.exportLmk ret] }
  if ret.status ≠ .ok then (espFail, d)
  else
    let lmk := cfg.lmkToInstall (Bytes.fill 16 (ret.output.getD []))
    let (err, espNow) := keyManagerEnableDerivedEspnowEncryption env.esp cfg.espnowChannel
      (some cfg.peerMac) (some lmk) d.espNow
    let d := { d with espNow := espNow }
    if err ≠ espOk then (err, d) else (espOk, d.log (.installed lmk))

/-- `fail_pairing`. -/
def failPairing (d : Device L) : Device L := { d with state := .failed }

/-- The common shape of the four exchanges: the outcome `ret` of a handshake call, then `onFail`, or
a reply and the steps `next` after it. -/
def exchange (h : Handshake) (input : List UInt8) (ret : FfiRet L) (accepted : List (Event L))
    (onFail : Device L → Device L) (reply : Device L → EspErr × Device L)
    (next : Device L → Device L) (d : Device L) : Device L :=
  let d := d.called h input ret
  if ret.status ≠ .ok then onFail d
  else espErrorCheck (reply { d with trace := d.trace ++ accepted }) next

/-- `uint8_t message[LAKERS_EDHOC_MAX_MESSAGE_LEN] = {0}`. -/
def messageBuffer : Option (List UInt8) := some (List.replicate maxEdhocMessageLen 0)

/-- The message with this payload that `src` sends in a pairing. -/
def EdhocTransportMsg.ofPayload (src : Mac) (type : MsgType) (seq : UInt16)
    (payload : List UInt8) : EdhocTransportMsg :=
  { srcMac := src, type := type.code, flags := 0, sessionId := edhocSessionId, seq := seq,
    fragIdx := 0, fragCount := 1, payloadLen := UInt16.ofNat payload.length,
    payload := Bytes.fill 192 payload }

/-! ## The handler -/

section Handler

variable (msg : EdhocTransportMsg) (d : Device L)

/-- The M2 branch. -/
def onMessage2 : Device L :=
  let ret := lakersEdhocProcessMessage2 (some msg.payload.toList) msg.payloadLen.toNat messageBuffer
    maxEdhocMessageLen (some 0) d.session
  exchange .processMessage2 msg.bytes ret [.accepted msg] failPairing
    (sendEdhocPayload cfg env .m3 (msg.seq + 1) ret.output (ret.outputLength.getD 0))
    (fun d => { d with state := .waitEdhocAck }) d

/-- The ACK branch, up to its delay. -/
def onHandshakeAck : Device L :=
  if verifyHandshakeAck msg = false then failPairing d
  else
    let (err, d) := deriveAndInstallLmk cfg env (d.log (.accepted msg))
    if err ≠ espOk then failPairing d
    else { d with state := .waitKeyTestAck, pc := .keyTestDelay (msg.seq + 1) }

/-- The KEY_TEST_ACK branch. -/
def onKeyTestAck : Device L :=
  if verifyControlPayload msg = false then failPairing d
  else { d.log (.accepted msg) with state := .complete }

/-- The M1 branch. -/
def onMessage1 : Device L :=
  let ret := lakersEdhocProcessMessage1 env.rng (some msg.payload.toList) msg.payloadLen.toNat
    messageBuffer maxEdhocMessageLen (some 0) d.session
  exchange .processMessage1 msg.bytes ret [.accepted msg] failPairing
    (sendEdhocPayload cfg env .m2 (msg.seq + 1) ret.output (ret.outputLength.getD 0))
    (fun d => { d with state := .waitM3 }) d

/-- The M3 branch, up to its delay. -/
def onMessage3 : Device L :=
  let ret := lakersEdhocProcessMessage3 (some msg.payload.toList) msg.payloadLen.toNat d.session
  exchange .processMessage3 msg.bytes ret [.accepted msg] failPairing
    (sendHandshakeAck cfg env (msg.seq + 1)) (fun d => { d with pc := .switchDelay }) d

/-- The KEY_TEST branch. -/
def onKeyTest : Device L :=
  if verifyControlPayload msg = false then failPairing d
  else
    espErrorCheck (sendControlMessage cfg env .keyTestAck (msg.seq + 1) (d.log (.accepted msg)))
      fun d => { d with state := .complete }

/-- `handle_received_message`, until it returns or enters a `vTaskDelay`. -/
def handleReceivedMessage : Device L :=
  if msg.sessionId ≠ edhocSessionId then failPairing d
  else
    match cfg.role with
    | .initiator =>
      if d.state = .waitM2 ∧ msg.type = MsgType.m2.code then onMessage2 cfg env msg d
      else if d.state = .waitEdhocAck ∧ msg.type = MsgType.ack.code then
        onHandshakeAck cfg env msg d
      else if d.state = .waitKeyTestAck ∧ msg.type = MsgType.keyTestAck.code then
        onKeyTestAck msg d
      else d
    | .responder =>
      if d.state = .waitM1 ∧ msg.type = MsgType.m1.code then onMessage1 cfg env msg d
      else if d.state = .waitM3 ∧ msg.type = MsgType.m3.code then onMessage3 cfg env msg d
      else if d.state = .waitKeyTest ∧ msg.type = MsgType.keyTest.code then onKeyTest cfg env msg d
      else d

/-- The rest of `handle_received_message` after a `vTaskDelay`. -/
def afterDelay : Device L :=
  match d.pc with
  | .switchDelay =>
    let (err, d) := deriveAndInstallLmk cfg env { d with pc := .loop }
    if err ≠ espOk then failPairing d else { d with state := .waitKeyTest }
  | .keyTestDelay seq =>
    espErrorCheck (sendControlMessage cfg env .keyTest seq { d with pc := .loop }) id
  | .loop | .halted => d

/-- The start branch of `app_task`. -/
def startCheck (tick : UInt32) : Device L :=
  if cfg.role = .initiator ∧ d.initiatorStarted = false ∧
      tick - d.bootTick ≥ pdMsToTicks cfg.tickRateHz edhocStartDelayMs then
    let ret := lakersEdhocMakeMessage1 env.rng messageBuffer maxEdhocMessageLen (some 0) d.session
    exchange .makeMessage1 [] ret [] (fun d => { failPairing d with initiatorStarted := true })
      (sendEdhocPayload cfg env .m1 1 ret.output (ret.outputLength.getD 0))
      (fun d => { d with state := .waitM2, initiatorStarted := true }) d
  else d

end Handler

/-! ## Boot -/

/-- `__wrap_lakers_edhoc_session_init`; `created` tells whether its worker task could be created. -/
def wrapLakersEdhocSessionInit (created : Bool) (rng : L.Rng) (role : UInt8)
    (ownMac peerMac : Option Mac) (channel : UInt8) (session : Session L) : FfiRet L :=
  if ownMac = none ∨ peerMac = none then ⟨.invalidArgument, session, none, none⟩
  else if created = false then ⟨.protocolError, session, none, none⟩
  else lakersEdhocSessionInit rng role ownMac peerMac channel session

/-- `app_main` after a successful platform set-up; `none` when it stops before `app_task`. -/
def appMain (created : Bool) (bootTick : UInt32) : Option (Device L) :=
  if peerMacIsConfigured cfg.peerMac = false then none
  else
    let (err, espNow) :=
      espnowTransportAddPeer env.esp cfg.espnowChannel cfg.peerMac false none .init
    if err ≠ espOk then none
    else
      let ret := wrapLakersEdhocSessionInit created env.rng cfg.role.code (some cfg.ownMac)
        (some cfg.peerMac) cfg.espnowChannel .empty
      if ret.status ≠ .ok then none
      else
        some
          { state := match cfg.role with | .initiator => .idle | .responder => .waitM1
            initiatorStarted := false
            bootTick := bootTick
            session := ret.session
            espNow := espNow
            pc := .loop
            trace := [] }

/-! ## Sample boards -/

/-- Two boards configured for each other. -/
def Config.sample : Role → Config
  | .initiator => ⟨.initiator, ⟨[2, 0, 0, 0, 0, 1], rfl⟩, ⟨[2, 0, 0, 0, 0, 2], rfl⟩, 1, false, 1000⟩
  | .responder => ⟨.responder, ⟨[2, 0, 0, 0, 0, 2], rfl⟩, ⟨[2, 0, 0, 0, 0, 1], rfl⟩, 1, false, 1000⟩

/-- Every driver call succeeds. -/
def Env.sample : Env Lakers.sample := ⟨(0 : UInt8), .ok⟩

/-- What the sample boards draw at boot. -/
def bootRng : Role → UInt8
  | .initiator => 7
  | .responder => 9

/-- The three messages of Lakers between the sample boards. -/
def sampleMessage1 : List UInt8 := [1, 7]
def sampleMessage2 : List UInt8 := [2, 9]
def sampleMessage3 : List UInt8 := [3, 7, 9]

/-- PRK_out of a completed session. -/
def Session.prkOut? (s : Session Lakers.sample) : Option (UInt8 × UInt8) := s.done?

/-- A sample board after its boot. -/
def Device.sample (role : Role) : Device Lakers.sample :=
  (appMain (Config.sample role) { Env.sample with rng := bootRng role } true 0).get
    (by cases role <;> decide)

theorem appMain_sample (role : Role) :
    appMain (Config.sample role) { Env.sample with rng := bootRng role } true 0 =
      some (Device.sample role) := (Option.some_get _).symm

/-- What a sample board is given in a pairing without loss. -/
def sampleInputs : Role → List (Input Lakers.sample)
  | .initiator =>
    let src := (Config.sample .responder).ownMac
    [.startCheck 2000 .sample, .received (.ofPayload src .m2 2 sampleMessage2) .sample,
      .received (.ofPayload src .ack 4 edhocHandshakeAckPayload.dropLast) .sample,
      .received (.ofPayload src .keyTestAck 6 keyTestAckPayload.dropLast) .sample]
  | .responder =>
    let src := (Config.sample .initiator).ownMac
    [.received (.ofPayload src .m1 1 sampleMessage1) .sample,
      .received (.ofPayload src .m3 3 sampleMessage3) .sample,
      .received (.ofPayload src .keyTest 5 keyTestPayload.dropLast) .sample]

/-- The steps of a pairing without loss. -/
def sampleSteps (role : Role) : List (TaskStep Lakers.sample) :=
  (sampleInputs role).flatMap Input.steps

/-! ## The device as a machine -/

namespace Device

/-- One step of the task. Inputs are taken at the top of the loop only. -/
def step (d : Device L) : TaskStep L → Device L
  | .input (.startCheck tick env) =>
    if d.pc = .loop then EspNowEdhoc.startCheck cfg env d tick else d
  | .input (.received msg env) => if d.pc = .loop then handleReceivedMessage cfg env msg d else d
  | .delayOver env => afterDelay cfg env d

/-- Take one input through its delay. -/
def handle (d : Device L) (i : Input L) : Device L := run (step cfg) d i.steps

/-- **A run over whole inputs is a run of the task.** -/
theorem handle_run (d : Device L) (inputs : List (Input L)) :
    run (handle cfg) d inputs = run (step cfg) d (inputs.flatMap Input.steps) := by
  induction inputs generalizing d with
  | nil => rfl
  | cons i inputs ih => rw [List.flatMap_cons, run_append, run_cons, ih]; rfl

end Device

/-- The receive step of `app_task`, for a packet `espnow_transport_recv` delivers. -/
def receiveStep (rx : RxPacket) (d : Device L) : Device L :=
  match parsedMsg rx with
  | none => d
  | some msg => d.handle cfg (.received msg env)

/-- One turn of the loop of `app_task`; `rx` is what `espnow_transport_recv` delivers. After a start
that fails the `continue` skips the receive step. -/
def appTaskIteration (tick : UInt32) (startEnv : Env L) (rx : Option RxPacket) (d : Device L) :
    Device L :=
  if d.pc ≠ .loop then d
  else
    let d' := startCheck cfg startEnv d tick
    if d'.pc ≠ .loop ∨ d.initiatorStarted = false ∧ d'.initiatorStarted = true ∧
        d'.state = .failed then d'
    else
      match rx with
      | none => d'
      | some rx => receiveStep cfg env rx d'

/-- **A turn of the loop is a run of the task.** -/
theorem appTaskIteration_run (tick : UInt32) (startEnv : Env L) (rx : Option RxPacket)
    (d : Device L) : ∃ steps, steps.length ≤ 3 ∧
      appTaskIteration cfg env tick startEnv rx d = run (Device.step cfg) d steps := by
  unfold appTaskIteration
  split
  · exact ⟨[], by simp, rfl⟩
  next hpc =>
  rw [not_not] at hpc
  have hstart : Device.step cfg d (.input (.startCheck tick startEnv)) =
      startCheck cfg startEnv d tick := if_pos hpc
  have hone : ∃ steps, steps.length ≤ 3 ∧
      startCheck cfg startEnv d tick = run (Device.step cfg) d steps :=
    ⟨[.input (.startCheck tick startEnv)], by simp, by rw [run_cons, hstart, run_nil]⟩
  dsimp only
  split
  · exact hone
  split
  · exact hone
  unfold receiveStep
  split
  · exact hone
  · next msg _ =>
    refine ⟨[.input (.startCheck tick startEnv), .input (.received msg env), .delayOver env],
      by simp, ?_⟩
    rw [run_cons, hstart]
    rfl

end EspNowEdhoc
