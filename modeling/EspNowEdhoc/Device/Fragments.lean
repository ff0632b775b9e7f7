import EspNowEdhoc.Device.Final

/-!
# Fragments

The wire format has fragment fields, the parser checks them against each other, and nothing reads
them after that.

* **`handleReceivedMessage_whole`**: the handler does with a fragment what it does with the whole
  message.
* **`not_taken_iff_ignored`**, **`fragment_as_whole`**: which fragments are left alone.
-/

set_option autoImplicit false

namespace EspNowEdhoc

open Runs

variable {L : Lakers}

def EdhocTransportMsg.whole (msg : EdhocTransportMsg) : EdhocTransportMsg :=
  { msg with fragIdx := 0, fragCount := 1 }

/-- The event, on a message in a single fragment. -/
def Event.whole : Event L → Event L
  | .accepted msg => .accepted msg.whole
  | e => e

/-- The device, as if the messages it has accepted had come in single fragments. -/
def Device.whole (d : Device L) : Device L := { d with trace := d.trace.map Event.whole }

/-! ## The handler does not read the fragment fields -/

section Whole

variable {cfg : Config} {env : Env L} {msg : EdhocTransportMsg}

theorem Device.whole_trace (d : Device L) (es : List (Event L)) :
    ({ d with trace := d.trace ++ es } : Device L).whole =
      { d.whole with trace := d.whole.trace ++ es.map Event.whole } := by
  simp only [Device.whole, List.map_append]

theorem Device.sentFrames_whole (d : Device L) : d.whole.sentFrames = d.sentFrames := by
  have hsent (e : Event L) : e.whole.sent? = e.sent? := by cases e <;> rfl
  simp only [Device.sentFrames, Device.whole, List.filterMap_map, Function.comp_def, hsent]

theorem Device.calls_whole (d : Device L) : d.whole.calls = d.calls := by
  have hcall (e : Event L) : e.whole.isCall = e.isCall := by cases e <;> rfl
  have hid (e : Event L) (he : e.isCall = true) : e.whole = e := by
    cases e with
    | handshake | exportLmk | sent | installed => rfl
    | accepted => cases he
  simp only [Device.calls, Device.whole, List.filter_map, Function.comp_def, hcall]
  refine (List.map_congr_left fun e he => ?_).trans (List.map_id _)
  exact hid e (List.mem_filter.mp he).2

theorem transmit_whole (t : MsgType) (seq : UInt16) (payload : Option (List UInt8)) (len : ℕ)
    (d : Device L) : transmit cfg env t seq payload len d.whole =
      ((transmit cfg env t seq payload len d).1,
        (transmit cfg env t seq payload len d).2.whole) := by
  have helim (d : Device L) : transmit cfg env t seq payload len d =
      ((edhocTransportSend env.esp (some cfg.peerMac) t.code edhocSessionId seq payload len
          d.espNow).1,
        (edhocTransportSend env.esp (some cfg.peerMac) t.code edhocSessionId seq payload len
          d.espNow).2.elim d fun f => d.log (.sent f)) := by
    unfold transmit
    split <;>
    · next h =>
      rw [h]
      rfl
  rw [helim, helim]
  refine Prod.ext rfl ?_
  change Option.elim (edhocTransportSend env.esp (some cfg.peerMac) t.code edhocSessionId seq
    payload len d.espNow).2 _ _ = _
  cases (edhocTransportSend env.esp (some cfg.peerMac) t.code edhocSessionId seq payload len
    d.espNow).2 with
  | none => rfl
  | some f => exact (Device.whole_trace d [.sent f]).symm

theorem deriveAndInstallLmk_whole (cfg : Config) (env : Env L) (d : Device L) :
    deriveAndInstallLmk cfg env d.whole =
      ((deriveAndInstallLmk cfg env d).1, (deriveAndInstallLmk cfg env d).2.whole) := by
  obtain ⟨err, n, es, hend, heq⟩ := deriveAndInstallLmk_eq cfg env d.session d.espNow
  rw [heq d rfl rfl, heq d.whole rfl rfl]
  have hid (e : Event L) (he : e ∈ es) : e.whole = e := by
    rcases hend.mem e he with ⟨ret, rfl⟩ | ⟨lmk, rfl⟩ <;> rfl
  have hwhole := Device.whole_trace { d with espNow := n } es
  rw [(List.map_congr_left hid).trans (List.map_id _)] at hwhole
  exact Prod.ext rfl hwhole.symm

theorem espErrorCheck_whole (r : EspErr × Device L) (k : Device L → Device L)
    (hk : ∀ d, (k d).whole = k d.whole) :
    (espErrorCheck r k).whole = espErrorCheck (r.1, r.2.whole) k := by
  unfold espErrorCheck
  split
  · exact hk _
  · rfl

theorem exchange_whole {x : Handshake} {input : List UInt8} {ret : FfiRet L}
    {accepted : List (Event L)} (t : MsgType) (seq : UInt16) (payload : Option (List UInt8))
    (len : ℕ) {onFail next : Device L → Device L} (hfail : ∀ d, (onFail d).whole = onFail d.whole)
    (hnext : ∀ d, (next d).whole = next d.whole) (d : Device L) :
    (exchange x input ret accepted onFail (transmit cfg env t seq payload len) next d).whole =
      exchange x input ret (accepted.map Event.whole) onFail (transmit cfg env t seq payload len)
        next d.whole := by
  have hcalled : (d.called x input ret).whole = d.whole.called x input ret :=
    Device.whole_trace { d with session := ret.session } [.handshake x input ret]
  unfold exchange
  dsimp only
  split
  · rw [hfail, hcalled]
  · rw [espErrorCheck_whole _ next hnext, ← transmit_whole, Device.whole_trace, hcalled]

theorem afterDelay_whole (d : Device L) :
    (afterDelay cfg env d).whole = afterDelay cfg env d.whole := by
  unfold afterDelay
  cases hpc : d.pc with
  | switchDelay =>
    rw [show d.whole.pc = .switchDelay from hpc]
    have hder := deriveAndInstallLmk_whole cfg env { d with pc := .loop }
    dsimp only
    rw [show ({ d.whole with pc := .loop } : Device L) = ({ d with pc := .loop } : Device L).whole
      from rfl, hder]
    split <;> rfl
  | keyTestDelay seq =>
    rw [show d.whole.pc = .keyTestDelay seq from hpc]
    dsimp only
    rw [espErrorCheck_whole _ id fun _ => rfl]
    exact congrArg (espErrorCheck · id)
      (transmit_whole .keyTest seq _ _ { d with pc := .loop }).symm
  | loop =>
    rw [show d.whole.pc = .loop from hpc]
  | halted =>
    rw [show d.whole.pc = .halted from hpc]

theorem onAwaited_whole (t : MsgType) (d : Device L) :
    (onAwaited cfg env msg t d).whole = onAwaited cfg env msg.whole t d.whole := by
  have hlog : (d.log (.accepted msg)).whole = d.whole.log (.accepted msg.whole) :=
    Device.whole_trace d [.accepted msg]
  cases t with
  | m1 =>
    refine exchange_whole .m2 _ _ _ ?_ ?_ d
    · exact fun _ => rfl
    · exact fun _ => rfl
  | m2 =>
    refine exchange_whole .m3 _ _ _ ?_ ?_ d
    · exact fun _ => rfl
    · exact fun _ => rfl
  | m3 =>
    refine exchange_whole .ack (msg.seq + 1) (some edhocHandshakeAckPayload)
      (edhocHandshakeAckPayload.length - 1) ?_ ?_ d
    · exact fun _ => rfl
    · exact fun _ => rfl
  | ack =>
    dsimp only [onAwaited, onHandshakeAck]
    rw [show verifyHandshakeAck msg.whole = verifyHandshakeAck msg from rfl, ← hlog,
      deriveAndInstallLmk_whole]
    split
    · rfl
    dsimp only
    split <;> rfl
  | keyTest =>
    dsimp only [onAwaited, onKeyTest]
    rw [show verifyControlPayload msg.whole = verifyControlPayload msg from rfl, ← hlog]
    split
    · rfl
    · rw [espErrorCheck_whole _ (fun d => { d with state := .complete }) fun _ => rfl]
      exact congrArg (espErrorCheck · _) (transmit_whole .keyTestAck _ _ _ _).symm
  | keyTestAck =>
    dsimp only [onAwaited, onKeyTestAck]
    rw [show verifyControlPayload msg.whole = verifyControlPayload msg from rfl, ← hlog]
    split <;> rfl

/-- **The handler** does with a fragment what it does with the whole message. -/
theorem handleReceivedMessage_whole (d : Device L) :
    (handleReceivedMessage cfg env msg d).whole =
      handleReceivedMessage cfg env msg.whole d.whole := by
  cases handled cfg env msg d with
  | rejected hsid hd =>
    rw [hd]
    exact (if_pos (show msg.whole.sessionId ≠ edhocSessionId from hsid)).symm
  | ignored hsid hawait hd =>
    have hw : handleReceivedMessage cfg env msg.whole d.whole = d.whole :=
      handleReceivedMessage_of_not_awaited hsid hawait
    rw [hd, hw]
  | accepted t hsid hrole hs htype hd =>
    have hw : handleReceivedMessage cfg env msg.whole d.whole =
        onAwaited cfg env msg.whole t d.whole :=
      handleReceivedMessage_of_awaited hsid (awaited_eq_some.mpr ⟨hrole, hs⟩) htype
    rw [hd, onAwaited_whole, hw]

end Whole

/-! ## Which fragments are left alone -/

/-- No Lakers function is called, the pairing state stays and nothing is sent. -/
def NotTaken (d d' : Device L) : Prop :=
  d'.calls = d.calls ∧ d'.state = d.state ∧ d'.sentFrames = d.sentFrames

section NotTaken

variable {cfg : Config} {env : Env L} {d : Device L} {msg : EdhocTransportMsg} {t : MsgType}

theorem taken_of_accepted (hinv : Inv cfg d) (hpc : d.pc = .loop)
    (hsid : msg.sessionId = edhocSessionId) (hrole : cfg.role = t.receiver)
    (hs : d.state = t.waiting) (htype : msg.type = t.code) :
    ¬ NotTaken d (afterDelay cfg env (onAwaited cfg env msg t d)) := by
  have hmid : Inv cfg (onAwaited cfg env msg t d) := by
    rw [← handleReceivedMessage_of_awaited hsid (awaited_eq_some.mpr ⟨hrole, hs⟩) htype]
    exact (next_handleReceivedMessage env hinv hpc msg).inv
  have hcalls (hlt : d.calls.length < (onAwaited cfg env msg t d).calls.length) :
      ¬ NotTaken d (afterDelay cfg env (onAwaited cfg env msg t d)) := fun h => by
    have hgrow : Grows cfg (onAwaited cfg env msg t d)
        (afterDelay cfg env (onAwaited cfg env msg t d)) := grows_run hmid [.delayOver env]
    have hlt' := hlt.trans_le hgrow.calls_le
    rw [h.1] at hlt'
    exact lt_irrefl _ hlt'
  cases t with
  | m1 => exact hcalls (calls_exchange .m2 _ _ _ (fun _ => rfl) fun _ => rfl)
  | m2 => exact hcalls (calls_exchange .m3 _ _ _ (fun _ => rfl) fun _ => rfl)
  | m3 =>
    exact hcalls (calls_exchange .ack (msg.seq + 1) (some edhocHandshakeAckPayload)
      (edhocHandshakeAckPayload.length - 1) (fun _ => rfl) fun _ => rfl)
  | ack => exact fun h => onHandshakeAck_state_ne hpc hs h.2.1
  | keyTest => exact fun h => (onKeyTest_ne hpc hs).elim (absurd h.2.1) (absurd h.2.2)
  | keyTestAck => exact fun h => onKeyTestAck_state_ne hpc hs h.2.1

theorem not_taken_iff_ignored (hinv : Inv cfg d) (hpc : d.pc = .loop) (rx : RxPacket) :
    NotTaken d (receiveStep cfg env rx d) ↔ Ignored cfg d.state rx := by
  cases received cfg env hpc rx with
  | ignored hig hd =>
    rw [hd]
    exact iff_of_true ⟨rfl, rfl, rfl⟩ hig
  | rejected msg hmsg hsid hs hd =>
    rw [hd]
    exact iff_of_false (fun h => hs h.2.1.symm) (not_ignored_of_rejected hmsg hsid hs)
  | accepted msg t hmsg hsid hrole hs htype hd =>
    rw [hd]
    exact iff_of_false (taken_of_accepted hinv hpc hsid hrole hs htype)
      (not_ignored_of_accepted hmsg hsid hrole hs htype)

end NotTaken

/-- The first of two fragments of a message_1. -/
def fragmentFrame : RxPacket :=
  rxPacket strangerMac (EdhocTransportHdr.bytes
    { magic := edhocTransportMagic, version := edhocTransportVersion, type := MsgType.m1.code,
      flags := 0, sessionId := edhocSessionId, seq := 1, fragIdx := 0, fragCount := 2,
      payloadLen := 2 } ++ sampleMessage1) 14

/-- The first of two fragments is taken for a message_1: the responder hands its payload to Lakers,
answers it and goes on to wait for message_3. -/
theorem fragment_taken :
    let cfg := Config.sample .responder
    let d := Device.sample .responder
    let d' := receiveStep cfg Env.sample fragmentFrame d
    (parsedMsg fragmentFrame).map EdhocTransportMsg.fragCount = some 2 ∧ ¬ NotTaken d d' ∧
      d.calls.length = 0 ∧ d'.calls.length = 1 ∧ d.state = .waitM1 ∧ d'.state = .waitM3 ∧
      d.sentFrames.length = 0 ∧ d'.sentFrames.length = 1 := by
  refine ⟨by decide, fun h => absurd h.2.1 (by decide), ?_⟩
  decide

/-- **A fragment is handled as a whole message.** In every reachable state, what a fragment does to
the pairing state, the session, the peer entry, the frames sent and the Lakers calls is what the
whole message with its other fields does; and it is left alone exactly when such a message is: when
the state does not await its type, or when it is of another session and the pairing has failed. -/
theorem fragment_as_whole {cfg : Config} {env₀ : Env L} {created : Bool} {bootTick : UInt32}
    {d₀ : Device L} (h₀ : appMain cfg env₀ created bootTick = some d₀) (inputs : List (Input L))
    (env : Env L) (rx : RxPacket) (msg : EdhocTransportMsg) (hmsg : parsedMsg rx = some msg) :
    let d := run (Device.handle cfg) d₀ inputs
    let d' := receiveStep cfg env rx d
    let w := d.handle cfg (.received msg.whole env)
    d.pc ≠ .halted →
      (d'.state = w.state ∧ d'.session = w.session ∧
        d'.entry cfg.peerMac = w.entry cfg.peerMac ∧ d'.sentFrames = w.sentFrames ∧
        d'.calls = w.calls) ∧
      (NotTaken d d' ↔ if msg.sessionId = edhocSessionId then
        (awaited cfg.role d.state).map MsgType.code ≠ some msg.type else d.state = .failed) := by
  intro d d' w hhalt
  have hpc : d.pc = .loop :=
    (handle_run_pc cfg (appMain_eq_some h₀).2.2.1 inputs).resolve_right hhalt
  have hinv : Inv cfg d := by
    change Inv cfg (run (Device.handle cfg) d₀ inputs)
    rw [Device.handle_run]
    exact inv_run (inv_appMain h₀) _
  have hd' : d' = afterDelay cfg env (handleReceivedMessage cfg env msg d) := by
    change receiveStep cfg env rx d = _
    rw [receiveStep, hmsg, ← handle_received hpc]
  have hw : w = afterDelay cfg env (handleReceivedMessage cfg env msg.whole d) :=
    handle_received hpc
  -- both are what the whole message does to `d.whole`
  have hwhole : d'.whole = w.whole := by
    rw [hd', hw, afterDelay_whole, afterDelay_whole, handleReceivedMessage_whole,
      handleReceivedMessage_whole]
    rfl
  have hstate : d'.whole.state = w.whole.state := by rw [hwhole]
  have hsession : d'.whole.session = w.whole.session := by rw [hwhole]
  have hentry : d'.whole.entry cfg.peerMac = w.whole.entry cfg.peerMac := by rw [hwhole]
  refine ⟨⟨hstate, hsession, hentry, ?_, ?_⟩, ?_⟩
  · rw [← d'.sentFrames_whole, hwhole, w.sentFrames_whole]
  · rw [← d'.calls_whole, hwhole, w.calls_whole]
  · refine (not_taken_iff_ignored hinv hpc rx).trans ⟨fun h => h msg hmsg, fun h m hm => ?_⟩
    rw [hmsg] at hm
    cases hm
    exact h

theorem fragment_as_whole_sample :
    ¬ NotTaken (Device.sample .responder) (receiveStep (Config.sample .responder) Env.sample
      fragmentFrame (Device.sample .responder)) := fun h =>
  absurd ((fragment_as_whole (appMain_sample .responder) [] Env.sample fragmentFrame
    { EdhocTransportMsg.ofPayload strangerMac .m1 1 sampleMessage1 with fragCount := 2 } rfl
    (by decide)).2.mp h) (by decide)

end EspNowEdhoc
