import EspNowEdhoc.Device.Diagram
import EspNowEdhoc.Device.NoAbort
import EspNowEdhoc.Transport.Codec

/-!
# What a board puts on the air

* `Numbering`: a relation between types and sequence numbers that replies keep.
* `SentFrame.OfSession`: a frame of the session, numbered so, with the text of its type.
* **`onAir_step`**: one step sends no other frames; `onAir_run`: nor does a run.
* **`frames_understood`**: what a receiver makes of any frame of any run.
-/

set_option autoImplicit false

namespace EspNowEdhoc

open Runs

variable {L : Lakers}

/-! ## Frames -/

/-- **What reaches `esp_now_send`** is the frame of a payload of the given length, which is the
start of the buffer if that is long enough. -/
theorem edhocTransportSend_frame {res : EspNowRes} {mac : Mac} {type : UInt8}
    {sessionId seq : UInt16} {payload : Option (List UInt8)} {len : ℕ} {n : EspNow} {err : EspErr}
    {f : SentFrame}
    (h : edhocTransportSend res (some mac) type sessionId seq payload len n = (err, some f)) :
    ∃ p : List UInt8, p.length = len ∧ len ≤ 192 ∧ f.data = frameBytes type sessionId seq p ∧
      ∀ buffer, payload = some buffer → len ≤ buffer.length → p = buffer.take len := by
  unfold edhocTransportSend at h
  split at h
  · cases h
  split at h
  · cases h
  next hle =>
  unfold edhocTransportMaxPayloadLen at hle
  dsimp only at h
  split at h
  · cases h
  dsimp only [espnowTransportSend] at h
  split at h
  · cases h
  cases h
  -- the buffer holds the header, the payload and zeros
  have htake : ((payload.getD []).take len).length ≤ len := List.length_take_le ..
  have hpad : ((payload.getD []).take len ++
      List.replicate (len - ((payload.getD []).take len).length) 0).length = len := by
    rw [List.length_append, List.length_replicate]
    omega
  refine ⟨_, hpad, by omega, ?_, ?_⟩
  · have hframe := Bytes.take_toList_fill (n := 250) (l := frameBytes type sessionId seq _)
      (by rw [length_frameBytes, hpad]; unfold headerLen; omega)
    rw [length_frameBytes, hpad] at hframe
    rw [← hframe, frameBytes, hpad, ← List.append_assoc, Bytes.fill_append_replicate]
    rfl
  · rintro buffer rfl hbuf
    simp only [Option.getD_some, List.length_take, Nat.min_eq_left hbuf, Nat.sub_self,
      List.replicate_zero, List.append_nil]

/-- The type of the message that a message is answered with. -/
def MsgType.reply? : MsgType → Option MsgType
  | .m1 => some .m2
  | .m2 => some .m3
  | .m3 => some .ack
  | .ack => some .keyTest
  | .keyTest => some .keyTestAck
  | .keyTestAck => none

/-- The first message is numbered 1, and a reply one more than what it answers. -/
structure Numbering (N : MsgType → UInt16 → Prop) : Prop where
  first : N .m1 1
  reply : ∀ {t t' seq}, t.reply? = some t' → N t seq → N t' (seq + 1)

/-- A frame of the session, numbered so, with at most 192 bytes of payload and the text of its
type. -/
def SentFrame.OfSession (N : MsgType → UInt16 → Prop) (f : SentFrame) : Prop :=
  ∃ (t : MsgType) (seq : UInt16) (payload : List UInt8), N t seq ∧ payload.length ≤ 192 ∧
    (∀ text, t.text? = some text → payload = text.dropLast) ∧
    f.data = frameBytes t.code edhocSessionId seq payload

/-- A sent frame is one of the session. -/
def Event.OnAir (N : MsgType → UInt16 → Prop) : Event L → Prop
  | .sent f => f.OfSession N
  | .handshake .. | .exportLmk _ | .accepted _ | .installed _ => True

/-- The number that KEY_TEST will have after the delay. -/
def Pc.Numbered (N : MsgType → UInt16 → Prop) (pc : Pc) : Prop :=
  ∀ seq, pc = .keyTestDelay seq → N .keyTest seq

/-- A message is numbered as its type asks for. -/
def EdhocTransportMsg.Numbered (N : MsgType → UInt16 → Prop) (msg : EdhocTransportMsg) : Prop :=
  ∀ t : MsgType, msg.type = t.code → N t msg.seq

section Step

variable {N : MsgType → UInt16 → Prop} {cfg : Config} {env : Env L} {d : Device L}
  {msg : EdhocTransportMsg}

def GivesText (t : MsgType) (payload : Option (List UInt8)) (len : ℕ) : Prop :=
  ∀ text, t.text? = some text → payload = some text ∧ len = text.length - 1

theorem GivesText.of_none {t : MsgType} {payload : Option (List UInt8)} {len : ℕ}
    (h : t.text? = none) : GivesText t payload len := fun text ht => by
  rw [h] at ht
  cases ht

theorem givesText_ack :
    GivesText .ack (some edhocHandshakeAckPayload) (edhocHandshakeAckPayload.length - 1) :=
  fun _ h => by cases h; exact ⟨rfl, rfl⟩

theorem givesText_keyTest : GivesText .keyTest (some keyTestPayload) (keyTestPayload.length - 1) :=
  fun _ h => by cases h; exact ⟨rfl, rfl⟩

theorem givesText_keyTestAck :
    GivesText .keyTestAck (some keyTestAckPayload) (keyTestAckPayload.length - 1) :=
  fun _ h => by cases h; exact ⟨rfl, rfl⟩

/-- The frames sent are of the session, and so will be the next KEY_TEST. -/
structure OnAir (N : MsgType → UInt16 → Prop) (d d' : Device L) : Prop where
  emits : Emits (Event.OnAir N) d d'
  pc : d'.pc.Numbered N

theorem Pc.numbered_of_ne {pc : Pc} (h : ∀ seq, pc ≠ .keyTestDelay seq) : pc.Numbered N :=
  fun seq hpc => absurd hpc (h seq)

theorem onAir_transmit (cfg : Config) (env : Env L) {t : MsgType} {seq : UInt16} (hseq : N t seq)
    {payload : Option (List UInt8)} {len : ℕ} (htext : GivesText t payload len) (d : Device L) :
    Emits (Event.OnAir N) d (transmit cfg env t seq payload len d).2 := by
  unfold transmit
  split
  · next err f hsend =>
    obtain ⟨p, hlen, hle, hdata, hbuf⟩ := edhocTransportSend_frame hsend
    refine .log ⟨t, seq, p, hseq, hlen.trans_le hle, fun text ht => ?_, hdata⟩
    obtain ⟨rfl, rfl⟩ := htext text ht
    rw [hbuf text rfl (Nat.sub_le ..), List.dropLast_eq_take]
  · exact .of_trace rfl

theorem onAir_send (cfg : Config) (env : Env L) {t : MsgType} {seq : UInt16} (hseq : N t seq)
    {payload : Option (List UInt8)} {len : ℕ} (htext : GivesText t payload len) (d : Device L)
    {k : Device L → Device L} (hk : ∀ d, (k d).trace = d.trace)
    (hpc : ∀ d', SameControl d d' → (k d').pc.Numbered N) :
    OnAir N d (espErrorCheck (transmit cfg env t seq payload len d) k) := by
  have hsend := onAir_transmit (N := N) cfg env hseq htext d
  obtain ⟨d', hc, -, rfl, heq | heq⟩ := send_eq cfg env t seq payload len d k
  · rw [heq]
    exact ⟨hsend.trans (.of_trace (hk _)), hpc _ hc⟩
  · rw [heq]
    exact ⟨hsend.trans (.of_trace rfl), Pc.numbered_of_ne nofun⟩

theorem OnAir.quiet {d' : Device L} (hpc : d.pc.Numbered N) (htrace : d'.trace = d.trace)
    (hpc' : d'.pc = d.pc) : OnAir N d d' := ⟨.of_trace htrace, hpc' ▸ hpc⟩

theorem onAir_exchange (hpc : d.pc.Numbered N) {x : Handshake} {input : List UInt8} {ret : FfiRet L}
    {accepted : List (Event L)} (hacc : ∀ e ∈ accepted, e.OnAir N) {t : MsgType} {seq : UInt16}
    (hseq : N t seq) {payload : Option (List UInt8)} {len : ℕ} (htext : GivesText t payload len)
    {onFail next : Device L → Device L} (hfail : ∀ d, (onFail d).trace = d.trace)
    (hfailPc : ∀ d, (onFail d).pc = d.pc) (hnext : ∀ d, (next d).trace = d.trace)
    (hnextPc : ∀ d', d'.pc = d.pc → (next d').pc.Numbered N) :
    OnAir N d
      (exchange x input ret accepted onFail (transmit cfg env t seq payload len) next d) := by
  have hcalled : Emits (Event.OnAir N) d (d.called x input ret) :=
    ⟨[.handshake x input ret], rfl, fun _ he => List.mem_singleton.mp he ▸ trivial⟩
  unfold exchange
  dsimp only
  split
  · exact ⟨hcalled.trans (.of_trace (hfail _)), by rw [hfailPc]; exact hpc⟩
  · have hlogged : Emits (Event.OnAir N) (d.called x input ret)
        { d.called x input ret with trace := (d.called x input ret).trace ++ accepted } :=
      ⟨accepted, rfl, hacc⟩
    have hsend := onAir_send cfg env hseq htext { d.called x input ret with
      trace := (d.called x input ret).trace ++ accepted } hnext fun d' hc => hnextPc d' hc.pc
    exact ⟨(hcalled.trans hlogged).trans hsend.emits, hsend.pc⟩

theorem emits_onAir_deriveAndInstallLmk (cfg : Config) (env : Env L) (d : Device L) :
    Emits (Event.OnAir N) d (deriveAndInstallLmk cfg env d).2 := by
  obtain ⟨err, n, es, hend, heq⟩ := deriveAndInstallLmk_eq cfg env d.session d.espNow
  rw [heq d rfl rfl]
  refine ⟨es, rfl, fun e he => ?_⟩
  rcases hend.mem e he with ⟨ret, rfl⟩ | ⟨lmk, rfl⟩ <;> trivial

theorem onAir_onAwaited (hN : Numbering N) (hpc : d.pc = .loop) {t : MsgType} (hseq : N t msg.seq) :
    OnAir N d (onAwaited cfg env msg t d) := by
  have hloop : d.pc.Numbered N := Pc.numbered_of_ne fun seq h => by rw [hpc] at h; cases h
  have hlog : Emits (Event.OnAir N) d (d.log (.accepted msg)) := .log trivial
  have hacc (e : Event L) (he : e ∈ [Event.accepted msg]) : e.OnAir N := by
    rw [List.mem_singleton.mp he]
    trivial
  have hkeep (d' : Device L) (h : d'.pc = d.pc) : d'.pc.Numbered N := h ▸ hloop
  cases t with
  | m1 =>
    exact onAir_exchange hloop hacc (hN.reply rfl hseq) (.of_none rfl) (fun _ => rfl)
      (fun _ => rfl) (fun _ => rfl) hkeep
  | m2 =>
    exact onAir_exchange hloop hacc (hN.reply rfl hseq) (.of_none rfl) (fun _ => rfl)
      (fun _ => rfl) (fun _ => rfl) hkeep
  | m3 =>
    exact onAir_exchange hloop hacc (hN.reply rfl hseq) givesText_ack (fun _ => rfl) (fun _ => rfl)
      (fun _ => rfl) fun _ _ => Pc.numbered_of_ne nofun
  | ack =>
    dsimp only [onAwaited, onHandshakeAck]
    split
    · exact .quiet hloop rfl rfl
    have hinst := hlog.trans (emits_onAir_deriveAndInstallLmk cfg env (d.log (.accepted msg)))
    have hc := sameControl_deriveAndInstallLmk cfg env (d.log (.accepted msg))
    split
    · exact ⟨hinst.trans (.of_trace rfl), hkeep _ hc.pc⟩
    · refine ⟨hinst.trans (.of_trace rfl), fun seq h => ?_⟩
      cases h
      exact hN.reply rfl hseq
  | keyTest =>
    dsimp only [onAwaited, onKeyTest]
    split
    · exact .quiet hloop rfl rfl
    have hsend := onAir_send cfg env (hN.reply (t := .keyTest) rfl hseq) givesText_keyTestAck
      (d.log (.accepted msg)) (k := fun d => { d with state := .complete }) (fun _ => rfl)
      fun d' hc => hkeep d' hc.pc
    exact ⟨hlog.trans hsend.emits, hsend.pc⟩
  | keyTestAck =>
    dsimp only [onAwaited, onKeyTestAck]
    split
    · exact .quiet hloop rfl rfl
    · exact ⟨hlog.trans (.of_trace rfl), hloop⟩

theorem onAir_afterDelay (hpc : d.pc.Numbered N) : OnAir N d (afterDelay cfg env d) := by
  unfold afterDelay
  split
  · have hinst : Emits (Event.OnAir N) d (deriveAndInstallLmk cfg env { d with pc := .loop }).2 :=
      emits_onAir_deriveAndInstallLmk cfg env { d with pc := .loop }
    have hc := sameControl_deriveAndInstallLmk cfg env { d with pc := .loop }
    have hloop (d' : Device L) (h : d'.pc = .loop) : d'.pc.Numbered N :=
      Pc.numbered_of_ne fun seq h' => by rw [h] at h'; cases h'
    dsimp only
    split
    · exact ⟨hinst.trans (.of_trace rfl), hloop _ hc.pc⟩
    · exact ⟨hinst.trans (.of_trace rfl), hloop _ hc.pc⟩
  · next seq hdelay =>
    have hsend := onAir_send cfg env (hpc seq hdelay) givesText_keyTest { d with pc := .loop }
      (k := id) (fun _ => rfl) fun d' hc => Pc.numbered_of_ne fun seq h => by
        rw [id, hc.pc] at h
        cases h
    exact ⟨hsend.emits, hsend.pc⟩
  · exact .quiet hpc rfl rfl
  · exact .quiet hpc rfl rfl

/-- **One step** sends no frame but those of the session, if what is received is numbered. -/
theorem onAir_step (hN : Numbering N) (cfg : Config) (hpc : d.pc.Numbered N) (s : TaskStep L)
    (hrecv : ∀ msg ∈ receivedMsgs [s], msg.Numbered N) : OnAir N d (d.step cfg s) := by
  cases s with
  | delayOver env => exact onAir_afterDelay hpc
  | input i =>
    cases i with
    | startCheck tick env =>
      simp only [Device.step, startCheck]
      split
      · next hloop =>
        split
        · exact onAir_exchange hpc (fun _ he => absurd he List.not_mem_nil) hN.first
            (.of_none rfl) (fun _ => rfl) (fun _ => rfl) (fun _ => rfl) fun d' h => h ▸ hpc
        · exact .quiet hpc rfl rfl
      · exact .quiet hpc rfl rfl
    | received msg env =>
      have hmsg := hrecv msg (List.mem_singleton_self msg)
      simp only [Device.step]
      split
      · next hloop =>
        cases handled cfg env msg d with
        | rejected _ hd => rw [hd]; exact .quiet hpc rfl rfl
        | ignored _ _ hd => rw [hd]; exact .quiet hpc rfl rfl
        | accepted t _ _ _ htype hd => rw [hd]; exact onAir_onAwaited hN hloop (hmsg t htype)
      · exact .quiet hpc rfl rfl

end Step

/-! ## Runs -/

def Device.Speaks (N : MsgType → UInt16 → Prop) (d : Device L) : Prop :=
  (∀ e ∈ d.trace, e.OnAir N) ∧ d.pc.Numbered N

section Runs

variable {N : MsgType → UInt16 → Prop} {cfg : Config} {d d₀ : Device L}

theorem Device.Speaks.step (hN : Numbering N) (cfg : Config) (h : d.Speaks N) {s : TaskStep L}
    (hrecv : ∀ msg ∈ receivedMsgs [s], msg.Numbered N) : (d.step cfg s).Speaks N := by
  obtain ⟨⟨l, htrace, hl⟩, hpc⟩ := onAir_step hN cfg h.2 s hrecv
  refine ⟨fun e he => ?_, hpc⟩
  rw [htrace, List.mem_append] at he
  exact he.elim (h.1 e) (hl e)

theorem Device.Speaks.sent (h : d.Speaks N) {f : SentFrame} (hf : f ∈ d.sentFrames) :
    f.OfSession N := by
  obtain ⟨e, he, hsent⟩ := List.mem_filterMap.mp hf
  cases e with
  | sent f' =>
    cases hsent
    exact h.1 _ he
  | handshake | exportLmk | accepted | installed => cases hsent

theorem speaks_appMain {env₀ : Env L} {created : Bool} {bootTick : UInt32}
    (h₀ : appMain cfg env₀ created bootTick = some d₀) : d₀.Speaks N := by
  obtain ⟨-, -, hpc, htrace, -⟩ := appMain_eq_some h₀
  refine ⟨fun e he => ?_, Pc.numbered_of_ne fun seq h => ?_⟩
  · rw [htrace] at he
    cases he
  · rw [hpc] at h
    cases h

theorem speaks_run {env₀ : Env L} {created : Bool} {bootTick : UInt32}
    (h₀ : appMain cfg env₀ created bootTick = some d₀) (steps : List (TaskStep L)) :
    (run (Device.step cfg) d₀ steps).Speaks fun _ _ => True :=
  run_inv (G := fun _ _ => True) (speaks_appMain h₀)
    (fun _ _ h _ => h.step ⟨trivial, fun _ _ => trivial⟩ cfg fun _ _ _ _ => trivial)
    (allowed_of_forall fun _ _ _ => trivial)

end Runs

/-! ## Receivers -/

section Receivers

variable {N : MsgType → UInt16 → Prop} {f : SentFrame}

/-- A received message of the session, numbered so, with the text of its type. -/
structure EdhocTransportMsg.OfSession (N : MsgType → UInt16 → Prop) (msg : EdhocTransportMsg) :
    Prop where
  session : msg.sessionId = edhocSessionId
  numbered : msg.Numbered N
  text : ∀ (t : MsgType) (text : List UInt8), msg.type = t.code → t.text? = some text →
    payloadIs msg text = true

theorem wire_ofPayload (src : Mac) (t : MsgType) (seq : UInt16) {payload : List UInt8}
    (hlen : payload.length ≤ 192) :
    (EdhocTransportMsg.ofPayload src t seq payload).wire =
      frameBytes t.code edhocSessionId seq payload := by
  have hnat : (UInt16.ofNat payload.length).toNat = payload.length := by
    rw [UInt16.toNat_ofNat', Nat.mod_eq_of_lt (by omega)]
  simp only [EdhocTransportMsg.wire, EdhocTransportMsg.hdr, EdhocTransportMsg.bytes,
    EdhocTransportMsg.ofPayload, frameBytes, hnat, Bytes.take_toList_fill hlen]

theorem SentFrame.OfSession.length_data (h : f.OfSession N) :
    12 ≤ f.data.length ∧ f.data.length ≤ 204 := by
  obtain ⟨t, seq, payload, -, hle, -, hdata⟩ := h
  rw [hdata, length_frameBytes]
  unfold headerLen
  omega

/-- **A receiver understands a frame of the session.** -/
theorem SentFrame.OfSession.understood (h : f.OfSession N) (src : Mac) :
    ∃ msg, parsedMsg (rxPacket src f.data f.data.length) = some msg ∧ msg.OfSession N ∧
      msg.srcMac = src ∧ msg.wire = f.data ∧ msg.payloadLen.toNat ≤ 192 ∧
      ∃ t : MsgType, msg.type = t.code := by
  obtain ⟨t, seq, payload, hseq, hlen, htext, hdata⟩ := h
  have hparse : parsedMsg (rxPacket src f.data f.data.length) =
      some (.ofPayload src t seq payload) := by
    rw [hdata]
    exact parseRx_rxPacket src t.code edhocSessionId seq hlen
  refine ⟨_, hparse, ⟨rfl, fun t' ht => ?_, fun t' text ht htext' => ?_⟩, rfl, ?_,
    (parsedMsg_eq_some hparse).2.2.2, t, rfl⟩
  · rw [← MsgType.code_inj.mp ht]
    exact hseq
  · have heq := MsgType.code_inj.mp ht
    subst heq
    rw [htext text htext']
    exact payloadIs_ofPayload src t seq (by cases t <;> cases htext' <;> decide)
  · rw [wire_ofPayload src t seq hlen, hdata]

end Receivers

/-- **Every frame is understood.** In any run of any board, whatever Lakers and the driver do, each
frame it sends has 12 to 204 bytes; a receiver with room in its queue queues it; and it parses it to
a message of the session, which in wire order is the frame again, and which holds the text that the
receiver's check of its type asks for. -/
theorem frames_understood {cfg : Config} {env₀ : Env L} {created : Bool} {bootTick : UInt32}
    {d₀ : Device L} (h₀ : appMain cfg env₀ created bootTick = some d₀) (steps : List (TaskStep L))
    {f : SentFrame} (hf : f ∈ (run (Device.step cfg) d₀ steps).sentFrames) (src : Mac)
    (queue : RxQueue) (hroom : ¬ queue.Full) :
    12 ≤ f.data.length ∧ f.data.length ≤ 204 ∧
    ∃ rx msg, (espnowRecvCb (some (some src)) (some f.data) f.data.length queue).items =
        queue.items ++ [rx] ∧ parsedMsg rx = some msg ∧ msg.srcMac = src ∧
      msg.sessionId = edhocSessionId ∧ msg.wire = f.data ∧
      ∃ t : MsgType, msg.type = t.code ∧ ∀ text, t.text? = some text →
        payloadIs msg text = true := by
  have hspeaks := (speaks_run h₀ steps).sent hf
  obtain ⟨msg, hparse, hmsg, hsrc, hwire, hpay, t, ht⟩ := hspeaks.understood src
  have hlen := hspeaks.length_data
  refine ⟨hlen.1, hlen.2, _, msg, ?_, hparse, hsrc, hmsg.session, hwire, t, ht,
    fun text htext => hmsg.text t text ht htext⟩
  rw [espnowRecvCb_eq_push src (by omega) (by omega), BoundedQueue.items_push_of_not_full hroom]

theorem frames_understood_sample :
    (run (Device.step (Config.sample .initiator)) (Device.sample .initiator)
      (sampleSteps .initiator)).sentFrames.length = 3 ∧
    ∀ f ∈ (run (Device.step (Config.sample .initiator)) (Device.sample .initiator)
      (sampleSteps .initiator)).sentFrames, f.data.length ≤ 204 :=
  ⟨by decide, fun _ hf => (frames_understood (appMain_sample .initiator) _ hf strangerMac
    .empty (by decide)).2.1⟩

end EspNowEdhoc
