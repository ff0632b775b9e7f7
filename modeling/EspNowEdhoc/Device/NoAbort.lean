import EspNowEdhoc.Device.Final

/-!
# No traffic aborts a board

A failed `ESP_ERROR_CHECK` halts the device, so a board that is back in its loop has had `ESP_OK`
from every checked send.

* `Wrote`: a call has left such a message in the caller's 192 bytes; `makeMessage1_wrote`,
  `processMessage1_wrote`, `processMessage2_wrote`.
* `emits_send`, `emits_exchange`, **`emits_onAwaited`**, `emits_afterDelay`, `emits_startCheck`.
* **`no_abort`**: this holds for every turn of every run.
-/

set_option autoImplicit false

namespace EspNowEdhoc

open Runs

variable {L : Lakers}

/-! ## The messages of Lakers -/

def Lakers.Fits (L : Lakers) (m : L.Buffer) : Prop :=
  1 ≤ (L.asSlice m).length ∧ (L.asSlice m).length ≤ maxEdhocMessageLen

/-- Every message Lakers produces has 1 to 192 bytes. -/
structure Lakers.Bounded (L : Lakers) : Prop where
  message1 : ∀ rng initiator waitM2 m,
    L.prepareMessage1 rng initiator = some (waitM2, m) → L.Fits m
  message2 : ∀ rng processedM1 waitM3 m,
    L.prepareMessage2 rng processedM1 = some (waitM3, m) → L.Fits m
  message3 : ∀ processedM2 waitM4 m, L.prepareMessage3 processedM2 = some (waitM4, m) → L.Fits m

theorem Lakers.fits_sample {m : List UInt8} {k : ℕ} (hlen : m.length = k) (hk : 1 ≤ k ∧ k ≤ 192) :
    Lakers.sample.Fits m := by
  subst hlen
  exact hk

theorem Lakers.bounded_sample : Lakers.sample.Bounded where
  message1 := fun _ _ _ _ h => by cases h; exact fits_sample (k := 2) rfl (by decide)
  message2 := fun _ _ _ _ h => by cases h; exact fits_sample (k := 2) rfl (by decide)
  message3 := fun _ _ _ h => by cases h; exact fits_sample (k := 3) rfl (by decide)

/-- The call has copied a message of 1 to 192 bytes to the start of the caller's 192 zero bytes,
none of it past their end. -/
def Wrote (ret : FfiRet L) : Prop :=
  ∃ bytes : List UInt8, 1 ≤ bytes.length ∧ bytes.length ≤ maxEdhocMessageLen ∧
    ret.output = some (bytes ++ List.replicate (maxEdhocMessageLen - bytes.length) 0) ∧
    ret.outputLength = some bytes.length

section Calls

variable {s : Session L}

theorem wrote_copyOutput {status : Status} {m : L.Buffer} (hm : L.Fits m) :
    Wrote ⟨status, s, (copyOutput (L.asSlice m) messageBuffer).1,
      (copyOutput (L.asSlice m) messageBuffer).2⟩ :=
  ⟨L.asSlice m, hm.1, hm.2, by simp [copyOutput, messageBuffer, List.drop_replicate], rfl⟩

theorem prepareOutput_messageBuffer :
    prepareOutput messageBuffer maxEdhocMessageLen (some 0) = (.ok (), some 0) := rfl

theorem makeMessage1_wrote (hL : L.Bounded) (rng : L.Rng)
    (hok : (lakersEdhocMakeMessage1 rng messageBuffer maxEdhocMessageLen (some 0) s).status = .ok) :
    Wrote (lakersEdhocMakeMessage1 rng messageBuffer maxEdhocMessageLen (some 0) s) := by
  simp only [lakersEdhocMakeMessage1, prepareOutput_messageBuffer, memReplace] at hok ⊢
  rcases s with _ | ⟨phase, ctx⟩ | session
  · cases hok
  · cases phase with
    | start initiator =>
      dsimp only at hok ⊢
      split at hok
      · next heq => exact wrote_copyOutput (hL.message1 _ _ _ _ heq)
      · cases hok
    | waitM2 | done | failed => cases hok
  · cases hok

theorem respondMessage1_fits (hL : L.Bounded) {rng : L.Rng} {responder : L.EdhocResponder}
    {waitM3 : L.EdhocResponderWaitM3} {m m' : L.Buffer}
    (h : L.respondMessage1 rng responder m = some (waitM3, m')) : L.Fits m' := by
  obtain ⟨processedM1, -, h⟩ := Option.bind_eq_some_iff.mp h
  exact hL.message2 _ _ _ _ h

theorem processMessage2_fits (hL : L.Bounded) {waitM2 : L.EdhocInitiatorWaitM2} {done : L.Done}
    {m m' : L.Buffer} (h : L.processMessage2 waitM2 m = some (done, m')) : L.Fits m' := by
  obtain ⟨⟨processingM2, idCredR⟩, -, h⟩ := Option.bind_eq_some_iff.mp h
  obtain ⟨expectedR, -, h⟩ := Option.bind_eq_some_iff.mp h
  obtain ⟨validR, -, h⟩ := Option.bind_eq_some_iff.mp h
  obtain ⟨processedM2, -, h⟩ := Option.bind_eq_some_iff.mp h
  obtain ⟨⟨waitM4, message3⟩, hm, h⟩ := Option.bind_eq_some_iff.mp h
  obtain ⟨done', -, h⟩ := Option.bind_eq_some_iff.mp h
  cases h
  exact hL.message3 _ _ _ hm

theorem processMessage1_wrote (hL : L.Bounded) (rng : L.Rng) (input : Option (List UInt8)) (n : ℕ)
    (hok : (lakersEdhocProcessMessage1 rng input n messageBuffer maxEdhocMessageLen (some 0)
      s).status = .ok) :
    Wrote (lakersEdhocProcessMessage1 rng input n messageBuffer maxEdhocMessageLen (some 0) s) := by
  simp only [lakersEdhocProcessMessage1, prepareOutput_messageBuffer, memReplace] at hok ⊢
  split at hok
  · next hin =>
    obtain rfl := inputSlice_error hin
    cases hok
  split at hok
  · cases hok
  rcases s with _ | session | ⟨phase, ctx⟩
  · cases hok
  · cases hok
  · cases phase with
    | start responder =>
      dsimp only at hok ⊢
      split at hok
      · next heq => exact wrote_copyOutput (respondMessage1_fits hL heq)
      · cases hok
    | waitM3 | done | failed => cases hok

theorem processMessage2_wrote (hL : L.Bounded) (input : Option (List UInt8)) (n : ℕ)
    (hok : (lakersEdhocProcessMessage2 input n messageBuffer maxEdhocMessageLen (some 0)
      s).status = .ok) :
    Wrote (lakersEdhocProcessMessage2 input n messageBuffer maxEdhocMessageLen (some 0) s) := by
  simp only [lakersEdhocProcessMessage2, prepareOutput_messageBuffer, memReplace] at hok ⊢
  split at hok
  · next hin =>
    obtain rfl := inputSlice_error hin
    cases hok
  split at hok
  · cases hok
  rcases s with _ | ⟨phase, ctx⟩ | session
  · cases hok
  · cases phase with
    | waitM2 waitM2 =>
      dsimp only at hok ⊢
      split at hok
      · next heq => exact wrote_copyOutput (processMessage2_fits hL heq)
      · cases hok
    | start | done | failed => cases hok
  · cases hok

end Calls

/-! ## What is sent -/

/-- A payload that passes every check on its way to the driver. -/
def Sendable (payload : Option (List UInt8)) (len : ℕ) : Prop :=
  ∃ buffer, payload = some buffer ∧ 1 ≤ len ∧ len ≤ edhocTransportMaxPayloadLen ∧
    len ≤ buffer.length

theorem Wrote.sendable {ret : FfiRet L} (h : Wrote ret) :
    Sendable ret.output (ret.outputLength.getD 0) := by
  obtain ⟨bytes, hpos, hle, hout, hlen⟩ := h
  refine ⟨_, hout, ?_⟩
  rw [hlen, List.length_append]
  exact ⟨hpos, hle, Nat.le_add_right ..⟩

theorem Sendable.ofString {s : List UInt8} (h : 2 ≤ s.length) (h' : s.length ≤ 193) :
    Sendable (some s) (s.length - 1) := by
  refine ⟨s, rfl, by omega, ?_, by omega⟩
  unfold edhocTransportMaxPayloadLen
  omega

/-- A frame is accepted by the driver and is one of the session, with the given sequence number and
1 to 192 bytes of payload; a call that makes a message writes it into its buffer. -/
def Event.Sound (cfg : Config) (seq : UInt16) : Event L → Prop
  | .sent f => f.result = espOk ∧ f.dest = cfg.peerMac ∧
      f.data.length ≤ espnowTransportMaxPayloadLen ∧ ∃ (t : MsgType) (payload : List UInt8),
        1 ≤ payload.length ∧ payload.length ≤ edhocTransportMaxPayloadLen ∧
        f.data = frameBytes t.code edhocSessionId seq payload
  | .handshake h _ ret => ret.status = .ok → h ≠ .processMessage3 → Wrote ret
  | .exportLmk _ | .accepted _ | .installed _ => True

/-- The device has logged events of this kind and no others. -/
def Emits (P : Event L → Prop) (d d' : Device L) : Prop :=
  ∃ es, d'.trace = d.trace ++ es ∧ ∀ e ∈ es, P e

namespace Emits

variable {P Q : Event L → Prop} {d d' d'' : Device L}

theorem of_trace (h : d'.trace = d.trace) : Emits P d d' :=
  ⟨[], by rw [h, List.append_nil], fun _ he => absurd he List.not_mem_nil⟩

theorem log {e : Event L} (he : P e) : Emits P d (d.log e) :=
  ⟨[e], rfl, fun _ h => List.mem_singleton.mp h ▸ he⟩

theorem trans (h : Emits P d d') (h' : Emits P d' d'') : Emits P d d'' := by
  obtain ⟨es, heq, hes⟩ := h
  obtain ⟨es', heq', hes'⟩ := h'
  refine ⟨es ++ es', by rw [heq', heq, List.append_assoc], fun e he => ?_⟩
  exact (List.mem_append.mp he).elim (hes e) (hes' e)

theorem mono (h : Emits P d d') (hPQ : ∀ e, P e → Q e) : Emits Q d d' := by
  obtain ⟨es, heq, hes⟩ := h
  exact ⟨es, heq, fun e he => hPQ e (hes e he)⟩

end Emits

/-! ## The handler -/

/-- The task is in its loop, or in a delay after which it sends nothing but this number. -/
def Pc.Resumes (seq : UInt16) : Pc → Prop
  | .loop | .switchDelay => True
  | .keyTestDelay s => s = seq
  | .halted => False

/-- The handler has returned or is in a delay, and what it has logged is sound. -/
def Replies (cfg : Config) (seq : UInt16) (d d' : Device L) : Prop :=
  d'.pc.Resumes seq ∧ Emits (Event.Sound cfg seq) d d'

theorem Pc.Resumes.of_loop {pc : Pc} (h : pc = .loop) (seq : UInt16) : pc.Resumes seq := by
  rw [h]
  trivial

section Handler

variable {cfg : Config} {env : Env L} {d : Device L} {msg : EdhocTransportMsg} {seq : UInt16}

theorem emits_send (cfg : Config) (seq : UInt16) (hesp : env.esp.send = espOk) (t : MsgType)
    {payload : Option (List UInt8)} {len : ℕ} (hp : Sendable payload len) (d : Device L) :
    ∃ d', d'.pc = d.pc ∧ Emits (Event.Sound cfg seq) d d' ∧
      ∀ next, espErrorCheck (transmit cfg env t seq payload len d) next = next d' := by
  obtain ⟨buffer, rfl, hpos, hle, hbuf⟩ := hp
  have htake : (buffer.take len).length = len := by rw [List.length_take]; omega
  have h250 : (frameBytes t.code edhocSessionId seq (buffer.take len)).length ≤
      espnowTransportMaxPayloadLen := by
    rw [length_frameBytes, htake]
    unfold headerLen espnowTransportMaxPayloadLen
    unfold edhocTransportMaxPayloadLen at hle
    omega
  rw [← htake] at hpos hle
  refine ⟨d.log (.sent ⟨cfg.peerMac, frameBytes t.code edhocSessionId seq (buffer.take len),
    d.espNow.peers cfg.peerMac, env.esp.send⟩), rfl,
    .log ⟨hesp, rfl, h250, t, buffer.take len, hpos, hle, rfl⟩, fun next => ?_⟩
  rw [transmit_fits cfg env t seq (htake ▸ hle) hbuf]
  exact if_pos hesp

/-- **An exchange** fails or goes on to `next`: its reply is never rejected. -/
theorem emits_exchange (hesp : env.esp.send = espOk) {x : Handshake} (input : List UInt8)
    {ret : FfiRet L} (hwrote : ret.status = .ok → x ≠ .processMessage3 → Wrote ret)
    (hpc : d.pc = .loop) (accepted : List (Event L)) (hacc : ∀ e ∈ accepted, e.Sound cfg seq)
    (t : MsgType) {payload : Option (List UInt8)} {len : ℕ}
    (hp : ret.status = .ok → Sendable payload len) {onFail next : Device L → Device L}
    {P : Device L → Prop}
    (hfail : ∀ d', d'.pc = .loop → Emits (Event.Sound cfg seq) d d' → P (onFail d'))
    (hnext : ∀ d', d'.pc = .loop → Emits (Event.Sound cfg seq) d d' → P (next d')) :
    P (exchange x input ret accepted onFail (transmit cfg env t seq payload len) next d) := by
  have hcalled : Emits (Event.Sound cfg seq) d (d.called x input ret) :=
    ⟨[.handshake x input ret], rfl, fun _ he => List.mem_singleton.mp he ▸ hwrote⟩
  unfold exchange
  dsimp only
  split
  · exact hfail _ hpc hcalled
  next hok =>
  rw [not_not] at hok
  have hlogged : Emits (Event.Sound cfg seq) (d.called x input ret)
      { d.called x input ret with trace := (d.called x input ret).trace ++ accepted } :=
    ⟨accepted, rfl, hacc⟩
  obtain ⟨d', hpc', hsend, hcheck⟩ := emits_send cfg seq hesp t (hp hok)
    { d.called x input ret with trace := (d.called x input ret).trace ++ accepted }
  rw [hcheck]
  exact hnext d' (hpc'.trans hpc) ((hcalled.trans hlogged).trans hsend)

theorem emits_deriveAndInstallLmk (cfg : Config) (env : Env L) (seq : UInt16) (d : Device L) :
    Emits (Event.Sound cfg seq) d (deriveAndInstallLmk cfg env d).2 := by
  obtain ⟨err, n, es, hend, heq⟩ := deriveAndInstallLmk_eq cfg env d.session d.espNow
  rw [heq d rfl rfl]
  refine ⟨es, rfl, fun e he => ?_⟩
  rcases hend.mem e he with ⟨ret, rfl⟩ | ⟨lmk, rfl⟩ <;> trivial

theorem emits_afterDelay (hesp : env.esp.send = espOk) {d' : Device L}
    (h : Replies cfg seq d d') : (afterDelay cfg env d').pc = .loop ∧
      Emits (Event.Sound cfg seq) d (afterDelay cfg env d') := by
  obtain ⟨hpc, hd'⟩ := h
  have hloop : Emits (Event.Sound cfg seq) d { d' with pc := .loop } := hd'.trans (.of_trace rfl)
  unfold afterDelay
  split
  · have hinst := emits_deriveAndInstallLmk cfg env seq { d' with pc := .loop }
    have hc := sameControl_deriveAndInstallLmk cfg env { d' with pc := .loop }
    dsimp only
    split
    · exact ⟨hc.pc, (hloop.trans hinst).trans (.of_trace rfl)⟩
    · exact ⟨hc.pc, (hloop.trans hinst).trans (.of_trace rfl)⟩
  · next s hs =>
    rw [hs] at hpc
    obtain rfl : s = seq := hpc
    obtain ⟨d'', hpc'', hsend, hcheck⟩ := emits_send cfg s hesp .keyTest
      (Sendable.ofString (s := keyTestPayload) (by decide) (by decide)) { d' with pc := .loop }
    rw [sendControlMessage_keyTest, hcheck]
    exact ⟨hpc'', hloop.trans hsend⟩
  · next hs => exact ⟨hs, hd'⟩
  · next hs =>
    rw [hs] at hpc
    exact hpc.elim

theorem emits_onAwaited (hL : L.Bounded) (hesp : env.esp.send = espOk) (hpc : d.pc = .loop)
    (t : MsgType) : Replies cfg (msg.seq + 1) d (onAwaited cfg env msg t d) := by
  have hacc (e : Event L) (he : e ∈ [Event.accepted msg]) : e.Sound cfg (msg.seq + 1) := by
    rw [List.mem_singleton.mp he]
    trivial
  have hlog : Emits (Event.Sound cfg (msg.seq + 1)) d (d.log (.accepted msg)) := .log trivial
  cases t with
  | m1 =>
    refine emits_exchange (P := Replies cfg (msg.seq + 1) d) hesp msg.bytes
      (fun hok _ => processMessage1_wrote hL _ _ _ hok) hpc [.accepted msg] hacc .m2
      (fun hok => (processMessage1_wrote hL _ _ _ hok).sendable) ?_ ?_
    · exact fun d' hpc' h => ⟨.of_loop hpc' _, h⟩
    · exact fun d' hpc' h => ⟨.of_loop hpc' _, h⟩
  | m2 =>
    refine emits_exchange (P := Replies cfg (msg.seq + 1) d) hesp msg.bytes
      (fun hok _ => processMessage2_wrote hL _ _ hok) hpc [.accepted msg] hacc .m3
      (fun hok => (processMessage2_wrote hL _ _ hok).sendable) ?_ ?_
    · exact fun d' hpc' h => ⟨.of_loop hpc' _, h⟩
    · exact fun d' hpc' h => ⟨.of_loop hpc' _, h⟩
  | m3 =>
    refine emits_exchange (P := Replies cfg (msg.seq + 1) d) hesp msg.bytes
      (fun _ hne => absurd rfl hne) hpc [.accepted msg] hacc .ack
      (fun _ => Sendable.ofString (s := edhocHandshakeAckPayload) (by decide) (by decide)) ?_ ?_
    · exact fun d' hpc' h => ⟨.of_loop hpc' _, h⟩
    · exact fun d' _ h => ⟨trivial, h⟩
  | ack =>
    dsimp only [onAwaited, onHandshakeAck]
    split
    · exact ⟨.of_loop hpc _, .of_trace rfl⟩
    have hinst := emits_deriveAndInstallLmk cfg env (msg.seq + 1) (d.log (.accepted msg))
    have hc := sameControl_deriveAndInstallLmk cfg env (d.log (.accepted msg))
    split
    · exact ⟨.of_loop (hc.pc.trans hpc) _, hlog.trans hinst⟩
    · exact ⟨rfl, hlog.trans hinst⟩
  | keyTest =>
    dsimp only [onAwaited, onKeyTest]
    split
    · exact ⟨.of_loop hpc _, .of_trace rfl⟩
    obtain ⟨d', hpc', hsend, hcheck⟩ := emits_send cfg (msg.seq + 1) hesp .keyTestAck
      (Sendable.ofString (s := keyTestAckPayload) (by decide) (by decide)) (d.log (.accepted msg))
    rw [sendControlMessage_keyTestAck, hcheck]
    exact ⟨.of_loop (hpc'.trans hpc) _, hlog.trans hsend⟩
  | keyTestAck =>
    dsimp only [onAwaited, onKeyTestAck]
    split
    · exact ⟨.of_loop hpc _, .of_trace rfl⟩
    · exact ⟨.of_loop hpc _, hlog⟩

/-- **The receive step** goes back to the loop and sends nothing but the number after that of the
message it has parsed. -/
theorem emits_receiveStep (hL : L.Bounded) (hesp : env.esp.send = espOk) (hpc : d.pc = .loop)
    (rx : RxPacket) : (receiveStep cfg env rx d).pc = .loop ∧
      Emits (fun e => ∃ msg, parsedMsg rx = some msg ∧ e.Sound cfg (msg.seq + 1)) d
        (receiveStep cfg env rx d) := by
  cases received cfg env hpc rx with
  | ignored _ hd =>
    rw [hd]
    exact ⟨hpc, .of_trace rfl⟩
  | rejected _ _ _ _ hd =>
    rw [hd]
    exact ⟨hpc, .of_trace rfl⟩
  | accepted msg t hmsg _ _ _ _ hd =>
    have hreply : Replies cfg (msg.seq + 1) d (onAwaited cfg env msg t d) :=
      emits_onAwaited hL hesp hpc t
    obtain ⟨hloop, hemits⟩ := emits_afterDelay hesp hreply
    rw [hd]
    exact ⟨hloop, hemits.mono fun e he => ⟨msg, hmsg, he⟩⟩

/-- **The start check** goes back to the loop and sends nothing but number 1. -/
theorem emits_startCheck (cfg : Config) (hL : L.Bounded) (hesp : env.esp.send = espOk)
    (hpc : d.pc = .loop) (tick : UInt32) : (startCheck cfg env d tick).pc = .loop ∧
      Emits (Event.Sound cfg 1) d (startCheck cfg env d tick) := by
  unfold startCheck
  split
  · refine emits_exchange (P := fun d' => d'.pc = .loop ∧ Emits (Event.Sound cfg 1) d d') hesp []
      (fun hok _ => makeMessage1_wrote hL _ hok) hpc []
      (fun _ he => absurd he List.not_mem_nil) .m1
      (fun hok => (makeMessage1_wrote hL _ hok).sendable) ?_ ?_
    · exact fun d' hpc' h => ⟨hpc', h⟩
    · exact fun d' hpc' h => ⟨hpc', h⟩
  · exact ⟨hpc, .of_trace rfl⟩

theorem emits_turn (hL : L.Bounded) (hpc : d.pc = .loop) {t : Turn L}
    (hstart : t.startEnv.esp.send = espOk) (hesp : t.env.esp.send = espOk) :
    (d.turn cfg t).pc = .loop ∧
      Emits (fun e => ∃ msg, t.rx.bind parsedMsg = some msg ∧ e.Sound cfg (msg.seq + 1))
        (startCheck cfg t.startEnv d t.tick) (d.turn cfg t) := by
  obtain ⟨hloop, -⟩ := emits_startCheck cfg hL hstart hpc t.tick
  unfold Device.turn appTaskIteration
  rw [if_neg (not_not.mpr hpc)]
  dsimp only
  split
  · exact ⟨hloop, .of_trace rfl⟩
  cases t.rx with
  | none => exact ⟨hloop, .of_trace rfl⟩
  | some rx => exact emits_receiveStep hL hesp hloop rx

end Handler

/-! ## Runs -/

def Turn.SendsOk (t : Turn L) : Prop := t.startEnv.esp.send = espOk ∧ t.env.esp.send = espOk

theorem turns_loop {cfg : Config} {d : Device L} (hL : L.Bounded) (hpc : d.pc = .loop)
    {turns : List (Turn L)} (hsend : ∀ t ∈ turns, t.SendsOk) :
    (run (Device.turn cfg) d turns).pc = .loop :=
  run_inv (I := fun d : Device L => d.pc = .loop) (G := fun _ t => t.SendsOk) hpc
    (fun _ _ hd ht => (emits_turn hL hd ht.1 ht.2).1) (allowed_of_forall fun _ => hsend)

/-- **No traffic aborts a board.** Take any run of the loop in which the sends of the driver succeed
and the messages of Lakers have 1 to 192 bytes, whatever is received. The task is in its loop before
and after every turn, so every `ESP_ERROR_CHECK` has passed; what the start check sends is sound and
carries number 1, and what the receive step sends is sound and carries the number after that of the
message received, modulo 2^16. -/
theorem no_abort {cfg : Config} {env₀ : Env L} {created : Bool} {bootTick : UInt32}
    {d₀ : Device L} (h₀ : appMain cfg env₀ created bootTick = some d₀) (hL : L.Bounded)
    (turns : List (Turn L)) (t : Turn L) (hsend : ∀ u ∈ turns ++ [t], u.SendsOk) :
    let d := run (Device.turn cfg) d₀ turns
    let d' := startCheck cfg t.startEnv d t.tick
    d.pc = .loop ∧ d'.pc = .loop ∧ (d.turn cfg t).pc = .loop ∧
      Emits (Event.Sound cfg 1) d d' ∧
      Emits (fun e => ∃ msg, t.rx.bind parsedMsg = some msg ∧ e.Sound cfg (msg.seq + 1)) d'
        (d.turn cfg t) := by
  have hloop : (run (Device.turn cfg) d₀ turns).pc = .loop :=
    turns_loop hL (appMain_eq_some h₀).2.2.1 fun u hu => hsend u (List.mem_append_left _ hu)
  have ht : t.SendsOk := hsend t (List.mem_append_right _ (List.mem_singleton_self t))
  obtain ⟨hstart, hstartEmits⟩ := emits_startCheck cfg hL ht.1 hloop t.tick
  obtain ⟨hturn, hturnEmits⟩ := emits_turn hL hloop ht.1 ht.2
  exact ⟨hloop, hstart, hturn, hstartEmits, hturnEmits⟩

/-- A turn that receives this message with the last sequence number. -/
def lastSeqTurn (t : MsgType) (payload : List UInt8) : Turn Lakers.sample :=
  .sample (some (rxPacket strangerMac (frameBytes t.code edhocSessionId 65535 payload)
    (12 + payload.length)))

/-- Both roles send all their frames, and what answers the last sequence number carries number 0. -/
theorem no_abort_sample :
    (let cfg := Config.sample .initiator
      let d := run (Device.turn cfg) (Device.sample .initiator)
        [.sample none, lastSeqTurn .m2 sampleMessage2]
      let d' := d.turn cfg (lastSeqTurn .ack edhocHandshakeAckPayload.dropLast)
      d'.pc = .loop ∧ d'.sentFrames.map (·.data) =
        [frameBytes MsgType.m1.code edhocSessionId 1 sampleMessage1,
          frameBytes MsgType.m3.code edhocSessionId 0 sampleMessage3,
          frameBytes MsgType.keyTest.code edhocSessionId 0 keyTestPayload.dropLast]) ∧
    (let cfg := Config.sample .responder
      let d := run (Device.turn cfg) (Device.sample .responder)
        [lastSeqTurn .m1 sampleMessage1, lastSeqTurn .m3 sampleMessage3]
      let d' := d.turn cfg (lastSeqTurn .keyTest keyTestPayload.dropLast)
      d'.pc = .loop ∧ d'.sentFrames.map (·.data) =
        [frameBytes MsgType.m2.code edhocSessionId 0 sampleMessage2,
          frameBytes MsgType.ack.code edhocSessionId 0 edhocHandshakeAckPayload.dropLast,
          frameBytes MsgType.keyTestAck.code edhocSessionId 0 keyTestAckPayload.dropLast]) :=
  ⟨⟨(no_abort (appMain_sample .initiator) Lakers.bounded_sample _ _
      (by simp [Turn.SendsOk, lastSeqTurn, Turn.sample, Env.sample, EspNowRes.ok])).2.2.1, rfl⟩,
    (no_abort (appMain_sample .responder) Lakers.bounded_sample _ _
      (by simp [Turn.SendsOk, lastSeqTurn, Turn.sample, Env.sample, EspNowRes.ok])).2.2.1, rfl⟩

end EspNowEdhoc
