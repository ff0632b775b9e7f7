import EspNowEdhoc.Device.Honest

/-!
# A board in a pairing without loss

* `Reached role context t k d`: the board has reached position `k` of the transcript `t`.
* **`reached_boot`**, `reached_startCheck`, `reached_afterDelay`: the boot, the start, the delays.
* **`reached_message`**: the frame a position waits for takes the board to the next position.
* **`reached_stale`**: an earlier frame is ignored.
-/

set_option autoImplicit false

namespace EspNowEdhoc

variable {L : Lakers}

/-! ## Positions -/

def Role.other : Role → Role
  | .initiator => .responder
  | .responder => .initiator

/-- The control state at a position. Either role sends its frames when it leaves the positions `0`,
`1` and `3`. -/
def controlAt : Role → ℕ → PairingState × Bool × Pc
  | .initiator, 0 => (.idle, false, .loop)
  | .initiator, 1 => (.waitM2, true, .loop)
  | .initiator, 2 => (.waitEdhocAck, true, .loop)
  | .initiator, 3 => (.waitKeyTestAck, true, .keyTestDelay 5)
  | .initiator, 4 => (.waitKeyTestAck, true, .loop)
  | .initiator, _ => (.complete, true, .loop)
  | .responder, 0 => (.waitM1, false, .loop)
  | .responder, 1 => (.waitM3, false, .loop)
  | .responder, 2 => (.waitM3, false, .switchDelay)
  | .responder, 3 => (.waitKeyTest, false, .loop)
  | .responder, _ => (.complete, false, .loop)

/-- The session at a position. -/
def sessionAt (t : Transcript L) (context : ExporterContext) : Role → ℕ → Session L
  | .initiator, 0 => .initiator ⟨.start t.initiator, context⟩
  | .initiator, 1 => .initiator ⟨.waitM2 t.waitM2, context⟩
  | .initiator, _ => .initiator ⟨.done t.doneI, context⟩
  | .responder, 0 => .responder ⟨.start t.responder, context⟩
  | .responder, 1 => .responder ⟨.waitM3 t.waitM3, context⟩
  | .responder, _ => .responder ⟨.done t.doneR, context⟩

/-- A frame of the pairing: its type, sequence number and payload. -/
structure Sending where
  type : MsgType
  seq : UInt16
  payload : List UInt8

/-- The frames a role sends, in order. -/
def Transcript.sendings (t : Transcript L) : Role → List Sending
  | .initiator => [⟨.m1, 1, L.asSlice t.message1⟩, ⟨.m3, 3, L.asSlice t.message3⟩,
      ⟨.keyTest, 5, keyTestPayload.dropLast⟩]
  | .responder => [⟨.m2, 2, L.asSlice t.message2⟩, ⟨.ack, 4, edhocHandshakeAckPayload.dropLast⟩,
      ⟨.keyTestAck, 6, keyTestAckPayload.dropLast⟩]

namespace Sending

/-- The bytes on the air. -/
def bytes (q : Sending) : List UInt8 := frameBytes q.type.code edhocSessionId q.seq q.payload

/-- The message a receiver parses. -/
def msg (q : Sending) (src : Mac) : EdhocTransportMsg := .ofPayload src q.type q.seq q.payload

end Sending

/-- The position a role leaves when it sends its frame `n`. -/
def slot : ℕ → ℕ
  | 0 => 0
  | 1 => 1
  | _ => 3

/-- The position at which a role waits for frame `n` of the other. -/
def waitsAt : Role → ℕ → ℕ
  | .initiator, n => slot n + 1
  | .responder, n => slot n

def delayAt : Role → ℕ
  | .initiator => 3
  | .responder => 2

def sentBefore : ℕ → ℕ
  | 0 => 0
  | 1 => 1
  | 2 | 3 => 2
  | _ => 3

theorem slot_cases (n : ℕ) : n = 0 ∧ slot n = 0 ∨ n = 1 ∧ slot n = 1 ∨ 2 ≤ n ∧ slot n = 3 := by
  rcases n with _ | _ | n
  · exact .inl ⟨rfl, rfl⟩
  · exact .inr (.inl ⟨rfl, rfl⟩)
  · exact .inr (.inr ⟨by omega, rfl⟩)

theorem waitsAt_eq {role : Role} {m n : ℕ} (h : waitsAt role m = waitsAt role n) :
    slot m = slot n := by
  cases role
  · exact Nat.succ.inj h
  · exact h

theorem lt_sentBefore {n k : ℕ} (hn : n < 3) : n < sentBefore k ↔ slot n < k := by
  match n, hn with
  | 0, _ | 1, _ | 2, _ => rcases k with _ | _ | _ | _ | k <;> simp [sentBefore, slot]

/-- A board of this role has reached position `k` of the transcript. -/
structure Reached (role : Role) (context : ExporterContext) (t : Transcript L) (k : ℕ)
    (d : Device L) : Prop where
  state : d.state = (controlAt role k).1
  started : d.initiatorStarted = (controlAt role k).2.1
  pc : d.pc = (controlAt role k).2.2
  session : d.session = sessionAt t context role k
  sent : d.sentData = ((t.sendings role).map Sending.bytes).take (sentBefore k)

section Reached

variable {cfg : Config} {ctx : ExporterContext} {env : Env L} {t t' : Transcript L} {k n : ℕ}
  {d : Device L} {q : Sending}

/-! ### The boot -/

theorem reached_boot {created : Bool} {bootTick : UInt32}
    (h : appMain cfg env created bootTick = some d) (hboot : t.boot cfg.role = env.rng) :
    Reached cfg.role cfg.exporterContext t 0 d := by
  obtain ⟨hstate, hst, hpc, htrace, -, hses⟩ := appMain_eq_some h
  have hsent : d.sentData = [] := by
    rw [Device.sentData, Device.sentFrames, htrace]
    rfl
  unfold createSession at hses
  split at hses
  · cases hses
  unfold Config.exporterContext
  rcases cfg with ⟨_ | _, own, peer, channel, corrupt, rate⟩
  · dsimp only at hses hboot hstate
    rw [if_pos rfl, t.credI_eq] at hses
    refine ⟨hstate, hst, hpc, ?_, hsent⟩
    rw [← Except.ok.inj hses, ← hboot]
    rfl
  · dsimp only at hses hboot hstate
    rw [if_neg (by decide), if_pos rfl, t.credR_eq] at hses
    refine ⟨hstate, hst, hpc, ?_, hsent⟩
    rw [← Except.ok.inj hses, ← hboot]
    rfl

theorem Reached.congr_boot {role : Role} (h : Reached role ctx t 0 d)
    (hboot : t'.boot role = t.boot role) : Reached role ctx t' 0 d := by
  refine ⟨h.state, h.started, h.pc, ?_, h.sent⟩
  rw [h.session]
  cases role with
  | initiator => rw [sessionAt, sessionAt, Transcript.initiator_congr hboot]
  | responder => rw [sessionAt, sessionAt, Transcript.responder_congr hboot]

theorem Reached.congr_start (h : Reached .initiator ctx t 1 d) (hboot : t'.bootI = t.bootI)
    (hm : t'.makeM1 = t.makeM1) : Reached .initiator ctx t' 1 d := by
  obtain ⟨hwait, hm1⟩ := Transcript.message1_congr hboot hm
  refine ⟨h.state, h.started, h.pc, ?_, ?_⟩
  · rw [h.session, sessionAt, sessionAt, hwait]
  · rw [h.sent, Transcript.sendings, Transcript.sendings, hm1]
    rfl

/-! ### The initiator -/

theorem reached_start (hesp : env.esp = .ok) (hrole : cfg.role = .initiator)
    (h : Reached .initiator ctx t 0 d) (hrng : t.makeM1 = env.rng) {tick : UInt32}
    (htick : tick - d.bootTick ≥ pdMsToTicks cfg.tickRateHz edhocStartDelayMs) :
    Reached .initiator ctx t 1 (startCheck cfg env d tick) := by
  obtain ⟨d', heq, hc, hses, hsent⟩ := exchange_written cfg hesp .makeMessage1 []
    (makeMessage1_ok h.session (hrng ▸ t.message1_eq)) t.travels.1 [] rfl .m1 1
    (fun d => { failPairing d with initiatorStarted := true })
    (fun d => { d with state := .waitM2, initiatorStarted := true }) d
  rw [startCheck, if_pos ⟨hrole, h.started, htick⟩]
  refine heq.symm ▸ ⟨rfl, rfl, hc.pc.trans h.pc, hses, hsent.trans ?_⟩
  rw [h.sent]
  rfl

theorem reached_onMessage2 (hesp : env.esp = .ok) (h : Reached .initiator ctx t 1 d) (src : Mac) :
    let msg := EdhocTransportMsg.ofPayload src .m2 2 (L.asSlice t.message2)
    Reached .initiator ctx t 2 (onMessage2 cfg env msg d) := by
  intro msg
  obtain ⟨d', heq, hc, hses, hsent⟩ := exchange_written cfg hesp .processMessage2 msg.bytes
    (processMessage2_ok t.travels.2.1 h.session t.message3_eq) t.travels.2.2 [.accepted msg] rfl
    .m3 (msg.seq + 1) failPairing (fun d => { d with state := .waitEdhocAck }) d
  have honm : onMessage2 cfg env msg d = _ := heq
  rw [honm]
  refine ⟨rfl, hc.started.trans h.started, hc.pc.trans h.pc, hses, hsent.trans ?_⟩
  rw [h.sent]
  rfl

theorem reached_onHandshakeAck (hesp : env.esp = .ok) (h : Reached .initiator ctx t 2 d)
    (src : Mac) :
    let msg := EdhocTransportMsg.ofPayload src .ack 4 edhocHandshakeAckPayload.dropLast
    Reached .initiator ctx t 3 (onHandshakeAck cfg env msg d) := by
  intro msg
  have hverify : verifyHandshakeAck msg = true := payloadIs_ofPayload src .ack 4 (by decide)
  have hphase : d.session.phase? = some .done := by rw [h.session]; rfl
  have hok := install_ok cfg hesp (d := d.log (.accepted msg)) hphase
  have hc := sameControl_deriveAndInstallLmk cfg env (d.log (.accepted msg))
  have hses := deriveAndInstallLmk_session cfg env (d.log (.accepted msg))
  have hsent := sentData_deriveAndInstallLmk cfg env (d.log (.accepted msg))
  rw [sentData_log_accepted] at hsent
  unfold onHandshakeAck
  rw [if_neg (by rw [hverify]; decide)]
  dsimp only
  rw [if_neg (not_not.mpr hok)]
  exact ⟨rfl, hc.started.trans h.started, rfl, hses.trans h.session, hsent.trans h.sent⟩

theorem reached_onKeyTestAck (h : Reached .initiator ctx t 4 d) (src : Mac) :
    let msg := EdhocTransportMsg.ofPayload src .keyTestAck 6 keyTestAckPayload.dropLast
    Reached .initiator ctx t 5 (onKeyTestAck msg d) := by
  intro msg
  have hlen : keyTestAckPayload.length ≤ 193 := by decide
  have hverify : verifyControlPayload msg = true := payloadIs_ofPayload src .keyTestAck 6 hlen
  unfold onKeyTestAck
  rw [if_neg (by rw [hverify]; decide)]
  exact ⟨rfl, h.started, h.pc, h.session, (sentData_log_accepted d msg).trans h.sent⟩

/-! ### The responder -/

theorem reached_onMessage1 (hesp : env.esp = .ok) (h : Reached .responder ctx t 0 d)
    (hrng : t.makeM2 = env.rng) (src : Mac) :
    let msg := EdhocTransportMsg.ofPayload src .m1 1 (L.asSlice t.message1)
    Reached .responder ctx t 1 (onMessage1 cfg env msg d) := by
  intro msg
  obtain ⟨d', heq, hc, hses, hsent⟩ := exchange_written cfg hesp .processMessage1 msg.bytes
    (processMessage1_ok t.travels.1 h.session (hrng ▸ t.message2_eq)) t.travels.2.1 [.accepted msg]
    rfl .m2 (msg.seq + 1) failPairing (fun d => { d with state := .waitM3 }) d
  have honm : onMessage1 cfg env msg d = _ := heq
  rw [honm]
  refine ⟨rfl, hc.started.trans h.started, hc.pc.trans h.pc, hses, hsent.trans ?_⟩
  rw [h.sent]
  rfl

theorem reached_onMessage3 (hesp : env.esp = .ok) (h : Reached .responder ctx t 1 d) (src : Mac) :
    let msg := EdhocTransportMsg.ofPayload src .m3 3 (L.asSlice t.message3)
    Reached .responder ctx t 2 (onMessage3 cfg env msg d) := by
  intro msg
  have hret := processMessage3_ok t.travels.2.2 h.session t.done_eq
  have hlen : edhocHandshakeAckPayload.length - 1 ≤ 192 := by decide
  obtain ⟨d', heq, hc, hses, hsent⟩ := exchange_ok cfg hesp .processMessage3 msg.bytes
    (congrArg FfiRet.status hret) [.accepted msg] rfl .ack (msg.seq + 1) hlen (Nat.sub_le ..)
    failPairing (fun d => { d with pc := .switchDelay }) d
  have honm : onMessage3 cfg env msg d = _ := heq
  rw [honm]
  refine ⟨hc.state.trans h.state, hc.started.trans h.started, rfl,
    hses.trans (congrArg FfiRet.session hret), hsent.trans ?_⟩
  rw [h.sent]
  rfl

theorem reached_onKeyTest (hesp : env.esp = .ok) (h : Reached .responder ctx t 3 d) (src : Mac) :
    let msg := EdhocTransportMsg.ofPayload src .keyTest 5 keyTestPayload.dropLast
    Reached .responder ctx t 4 (onKeyTest cfg env msg d) := by
  intro msg
  have hlen : keyTestPayload.length ≤ 193 := by decide
  have hverify : verifyControlPayload msg = true := payloadIs_ofPayload src .keyTest 5 hlen
  have hlen : keyTestAckPayload.length - 1 ≤ 192 := by decide
  obtain ⟨d', heq, hc, hses, hsent⟩ := send_ok cfg hesp .keyTestAck (msg.seq + 1) hlen
    (Nat.sub_le ..) (d.log (.accepted msg)) fun d => { d with state := .complete }
  rw [sentData_log_accepted] at hsent
  unfold onKeyTest
  rw [if_neg (by rw [hverify]; decide), sendControlMessage_keyTestAck, heq]
  refine ⟨rfl, hc.started.trans h.started, hc.pc.trans h.pc, hses.trans h.session, hsent.trans ?_⟩
  rw [h.sent]
  rfl

/-! ### Either board -/

theorem Reached.length_sentFrames {role : Role} (h : Reached role ctx t k d) :
    d.sentFrames.length = min (sentBefore k) 3 := by
  have hlen := congrArg List.length h.sent
  rw [Device.sentData, List.length_map, List.length_take, List.length_map] at hlen
  cases role <;> exact hlen

theorem Reached.last_initiator (h : Reached .initiator ctx t k d) (hk : 5 ≤ k) :
    d.state = .complete ∧ d.session.done? = some t.doneI := by
  obtain ⟨k, rfl⟩ := Nat.exists_eq_add_of_le' hk
  exact ⟨h.state, by rw [h.session]; rfl⟩

theorem Reached.last_responder (h : Reached .responder ctx t k d) (hk : 4 ≤ k) :
    d.state = .complete ∧ d.session.done? = some t.doneR := by
  obtain ⟨k, rfl⟩ := Nat.exists_eq_add_of_le' hk
  exact ⟨h.state, by rw [h.session]; rfl⟩

theorem controlAt_alive (role : Role) (k : ℕ) :
    (controlAt role k).1 ≠ .failed ∧ (controlAt role k).2.2 ≠ .halted := by
  cases role <;> rcases k with _ | _ | _ | _ | _ | k <;> exact ⟨nofun, nofun⟩

theorem eq_zero_of_not_started (h : (controlAt .initiator k).2.1 = false) : k = 0 := by
  rcases k with _ | _ | _ | _ | _ | k <;> first | rfl | cases h

/-- **A start check starts an initiator that has just booted**, or changes nothing. -/
theorem reached_startCheck (hesp : env.esp = .ok) {role : Role} (hrole : cfg.role = role)
    (h : Reached role ctx t k d) (hrng : role = .initiator → k = 0 → t.makeM1 = env.rng)
    (tick : UInt32) :
    ∃ k', Reached role ctx t k' (startCheck cfg env d tick) ∧
      (k' = k ∨ role = .initiator ∧ k = 0 ∧ k' = 1) := by
  by_cases hb : cfg.role = .initiator ∧ d.initiatorStarted = false ∧
    tick - d.bootTick ≥ pdMsToTicks cfg.tickRateHz edhocStartDelayMs
  · have hi := hrole.symm.trans hb.1
    subst hi
    have hk := eq_zero_of_not_started (h.started.symm.trans hb.2.1)
    subst hk
    exact ⟨1, reached_start hesp hrole h (hrng rfl rfl) hb.2.2, .inr ⟨rfl, rfl, rfl⟩⟩
  · exact ⟨k, by rwa [startCheck, if_neg hb], .inl rfl⟩

theorem reached_keyTestDelay (hesp : env.esp = .ok) (h : Reached .initiator ctx t 3 d) :
    Reached .initiator ctx t 4 (afterDelay cfg env d) := by
  have hlen : keyTestPayload.length - 1 ≤ 192 := by decide
  obtain ⟨d', heq, hc, hses, hsent⟩ := send_ok cfg hesp .keyTest 5 hlen (Nat.sub_le ..)
    { d with pc := .loop } id
  have hafter : afterDelay cfg env d = d' := by
    unfold afterDelay
    rw [h.pc]
    exact heq
  rw [hafter]
  refine ⟨hc.state.trans h.state, hc.started.trans h.started, hc.pc, hses.trans h.session,
    hsent.trans ?_⟩
  change d.sentData ++ _ = _
  rw [h.sent]
  rfl

theorem reached_switchDelay (hesp : env.esp = .ok) (h : Reached .responder ctx t 2 d) :
    Reached .responder ctx t 3 (afterDelay cfg env d) := by
  have hphase : d.session.phase? = some .done := by rw [h.session]; rfl
  have hok := install_ok cfg hesp (d := { d with pc := .loop }) hphase
  have hc := sameControl_deriveAndInstallLmk cfg env { d with pc := .loop }
  have hses := deriveAndInstallLmk_session cfg env { d with pc := .loop }
  have hsent := sentData_deriveAndInstallLmk cfg env { d with pc := .loop }
  unfold afterDelay
  rw [h.pc]
  dsimp only
  rw [if_neg (not_not.mpr hok)]
  exact ⟨rfl, hc.started.trans h.started, hc.pc, hses.trans h.session, hsent.trans h.sent⟩

theorem controlAt_pc {role : Role} (hk : k ≠ delayAt role) : (controlAt role k).2.2 = .loop := by
  match role, k, hk with
  | .initiator, 0, _ | .initiator, 1, _ | .initiator, 2, _ | .initiator, 4, _
  | .initiator, _ + 5, _ => rfl
  | .responder, 0, _ | .responder, 1, _ | .responder, 3, _ | .responder, _ + 4, _ => rfl

/-- **The delay of a position is over**, or there is none. -/
theorem reached_afterDelay (cfg : Config) (hesp : env.esp = .ok) {role : Role}
    (h : Reached role ctx t k d) :
    Reached role ctx t (if k = delayAt role then k + 1 else k) (afterDelay cfg env d) := by
  split
  · next hk =>
    subst hk
    cases role with
    | initiator => exact reached_keyTestDelay hesp h
    | responder => exact reached_switchDelay hesp h
  · next hk => rwa [afterDelay_of_loop (h.pc.trans (controlAt_pc hk))]

theorem lt_three {role : Role} (hq : (t.sendings role)[n]? = some q) : n < 3 := by
  have hlt := (List.getElem?_eq_some_iff.mp hq).1
  cases role <;> exact hlt

theorem sendings_type_inj {role : Role} {n' : ℕ} {q' : Sending}
    (hq : (t.sendings role)[n]? = some q) (hq' : (t.sendings role)[n']? = some q')
    (htype : q.type = q'.type) : n = n' := by
  have hnodup : ((t.sendings role).map Sending.type).Nodup := by
    cases role
    · exact (by decide : [MsgType.m1, .m3, .keyTest].Nodup)
    · exact (by decide : [MsgType.m2, .ack, .keyTestAck].Nodup)
  have hlt := (List.getElem?_eq_some_iff.mp hq).1
  refine (List.getElem?_inj (by rwa [List.length_map]) hnodup).mp ?_
  rw [List.getElem?_map, List.getElem?_map, hq, hq', Option.map_some, Option.map_some, htype]

theorem payload_le {role : Role} (hq : (t.sendings role)[n]? = some q) :
    q.payload.length ≤ 192 := by
  match role, n, hq with
  | .initiator, 0, rfl => exact t.travels.1.2.1
  | .initiator, 1, rfl => exact t.travels.2.2.2.1
  | .responder, 0, rfl => exact t.travels.2.1.2.1
  | .initiator, 2, rfl | .responder, 1, rfl | .responder, 2, rfl => decide
  | .initiator, _ + 3, hq | .responder, _ + 3, hq => cases hq

theorem length_bytes {role : Role} (hq : (t.sendings role)[n]? = some q) :
    0 < q.bytes.length ∧ q.bytes.length ≤ 250 := by
  have hle := payload_le hq
  rw [Sending.bytes, length_frameBytes, headerLen]
  omega

theorem parsedMsg_bytes {role : Role} (hq : (t.sendings role)[n]? = some q) (src : Mac) :
    parsedMsg (rxPacket src q.bytes q.bytes.length) = some (q.msg src) :=
  parseRx_rxPacket src q.type.code edhocSessionId q.seq (payload_le hq)

theorem awaited_controlAt {role : Role} (hq : (t.sendings role.other)[n]? = some q) :
    awaited role (controlAt role (waitsAt role n)).1 = some q.type := by
  match role, n, hq with
  | .initiator, 0, rfl | .initiator, 1, rfl | .initiator, 2, rfl
  | .responder, 0, rfl | .responder, 1, rfl | .responder, 2, rfl => rfl
  | .initiator, _ + 3, hq | .responder, _ + 3, hq => cases hq

theorem awaited_controlAt_ne {role : Role} (hq : (t.sendings role.other)[n]? = some q)
    (hlt : waitsAt role n < k) (hpc : (controlAt role k).2.2 = .loop) :
    awaited role (controlAt role k).1 ≠ some q.type := by
  match role, n, hq with
  | .initiator, 0, rfl | .initiator, 1, rfl | .initiator, 2, rfl
  | .responder, 0, rfl | .responder, 1, rfl | .responder, 2, rfl =>
    rcases k with _ | _ | _ | _ | _ | k <;>
      first | exact absurd hlt (by decide) | exact absurd hpc (by decide) | nofun
  | .initiator, _ + 3, hq | .responder, _ + 3, hq => cases hq

/-- **An earlier frame changes nothing.** -/
theorem reached_stale {role : Role} (hrole : cfg.role = role) (h : Reached role ctx t k d)
    (hpc : d.pc = .loop) (hq : (t.sendings role.other)[n]? = some q) (hlt : waitsAt role n < k)
    (src : Mac) :
    handleReceivedMessage cfg env (q.msg src) d = d := by
  refine handleReceivedMessage_of_not_awaited rfl fun hawait => ?_
  rw [hrole, h.state] at hawait
  exact awaited_controlAt_ne hq hlt (h.pc.symm.trans hpc)
    (Option.map_injective (fun _ _ => MsgType.code_inj.mp) hawait)

/-- **The frame a position waits for takes the board on.** -/
theorem reached_message (hesp : env.esp = .ok) {role : Role} (hrole : cfg.role = role)
    (hq : (t.sendings role.other)[n]? = some q) (h : Reached role ctx t (waitsAt role n) d)
    (hrng : role = .responder → n = 0 → t.makeM2 = env.rng) (src : Mac) :
    Reached role ctx t (waitsAt role n + 1) (handleReceivedMessage cfg env (q.msg src) d) := by
  have hbranch : handleReceivedMessage cfg env (q.msg src) d =
      onAwaited cfg env (q.msg src) q.type d :=
    handleReceivedMessage_of_awaited rfl (by rw [hrole, h.state]; exact awaited_controlAt hq) rfl
  rw [hbranch]
  match role, n, hq with
  | .initiator, 0, rfl => exact reached_onMessage2 hesp h src
  | .initiator, 1, rfl => exact reached_onHandshakeAck hesp h src
  | .initiator, 2, rfl => exact reached_onKeyTestAck h src
  | .responder, 0, rfl => exact reached_onMessage1 hesp h (hrng rfl rfl) src
  | .responder, 1, rfl => exact reached_onMessage3 hesp h src
  | .responder, 2, rfl => exact reached_onKeyTest hesp h src
  | .initiator, _ + 3, hq | .responder, _ + 3, hq => cases hq

end Reached

end EspNowEdhoc
