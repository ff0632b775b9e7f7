import EspNowEdhoc.Device.Progress
import EspNowEdhoc.Ffi.Context

/-!
# The invariant of a board

The control state tells what a board still has to do (`ahead`); `Inv` says that its session, peer
table and trace agree with that.

* `send_cases`, **`exchange_cases`**: the rules of a checked send and of an exchange.
* `Next`: the invariant afterwards, nothing taken back. One lemma for each branch of the handler,
  **`next_step`** for the whole task.
* **`inv_appMain`**, **`inv_run`**, `grows_run`: from the boot on, in every reachable state.
-/

set_option autoImplicit false

namespace EspNowEdhoc

open Runs Script

variable {L : Lakers}

/-! ## The invariant -/

/-- What is still to do, by role, place of the task, pairing state and start flag; `none` for a
board that has stopped. -/
def ahead : Role → Pc → PairingState → Bool → Option (List Milestone)
  | .initiator, .loop, .idle, _ => some (completionScript .initiator)
  | .initiator, .loop, .failed, false => some (completionScript .initiator)
  | .initiator, .loop, .waitM2, true => some ((completionScript .initiator).drop 2)
  | .initiator, .loop, .waitEdhocAck, true => some ((completionScript .initiator).drop 5)
  | .initiator, .keyTestDelay _, .waitKeyTestAck, true =>
    some ((completionScript .initiator).drop 8)
  | .initiator, .loop, .waitKeyTestAck, true => some ((completionScript .initiator).drop 9)
  | .initiator, .loop, .complete, true => some []
  | .responder, .loop, .waitM1, _ => some (completionScript .responder)
  | .responder, .loop, .waitM3, _ => some ((completionScript .responder).drop 3)
  | .responder, .switchDelay, .waitM3, _ => some ((completionScript .responder).drop 6)
  | .responder, .loop, .waitKeyTest, _ => some ((completionScript .responder).drop 8)
  | .responder, .loop, .complete, _ => some []
  | _, _, _, _ => none

/-- The states that come after an installation. -/
def PairingState.Encrypted (s : PairingState) : Prop :=
  s = .waitKeyTest ∨ s = .waitKeyTestAck ∨ s = .complete

instance (s : PairingState) : Decidable s.Encrypted :=
  inferInstanceAs (Decidable (_ ∨ _ ∨ _))

/-- The invariant of a board. -/
structure Inv (cfg : Config) (d : Device L) : Prop where
  at_ahead : At cfg (ahead cfg.role d.pc d.state d.initiatorStarted) d
  unstarted : cfg.role = .initiator → d.initiatorStarted = false →
    d.state = .idle ∨ d.state = .failed
  switchDelay : d.pc = .switchDelay → cfg.role = .responder ∧ d.state = .waitM3
  keyTestDelay : ∀ seq, d.pc = .keyTestDelay seq → cfg.role = .initiator ∧ d.state = .waitKeyTestAck
  complete : d.state = .complete → d.pc = .loop
  encrypted : d.state.Encrypted → (d.lmk? cfg).isSome

/-- The invariant holds afterwards and nothing has been taken back. -/
structure Next (cfg : Config) (d d' : Device L) : Prop where
  inv : Inv cfg d'
  grows : Grows cfg d d'

section Branches

variable {cfg : Config} {d d' : Device L} {r : List Milestone}

theorem Next.refl (h : Inv cfg d) : Next cfg d d := ⟨h, .refl d⟩

theorem Inv.started (h : Inv cfg d) (hrole : cfg.role = .initiator) (hi : d.state ≠ .idle)
    (hf : d.state ≠ .failed) : d.initiatorStarted = true := by
  rcases hs : d.initiatorStarted
  · exact ((h.unstarted hrole hs).elim hi hf).elim
  · rfl

theorem Inv.of_loop (hpc : d.pc = .loop)
    (hat : At cfg (ahead cfg.role .loop d.state d.initiatorStarted) d)
    (hst : cfg.role = .initiator → d.initiatorStarted = false → d.state = .idle ∨ d.state = .failed)
    (henc : d.state.Encrypted → (d.lmk? cfg).isSome) : Inv cfg d where
  at_ahead := by rw [hpc]; exact hat
  unstarted := hst
  switchDelay := fun h => by rw [hpc] at h; cases h
  keyTestDelay := fun _ h => by rw [hpc] at h; cases h
  complete := fun _ => hpc
  encrypted := henc

theorem Inv.of_failed (hat : At cfg none d) (hpc : d.pc = .loop) (hstate : d.state = .failed)
    (hst : cfg.role = .initiator → d.initiatorStarted = true) : Inv cfg d := by
  refine .of_loop hpc ?_ (fun _ _ => .inr hstate) fun h => ?_
  · have hnone : ahead cfg.role .loop d.state d.initiatorStarted = none := by
      rw [hstate]
      cases hrole : cfg.role with
      | initiator => rw [hst hrole]; rfl
      | responder => rfl
    rw [hnone]
    exact hat
  · rw [hstate] at h
    exact absurd h (by decide)

theorem Inv.of_halted (hat : At cfg none d) (hst : cfg.role = .initiator →
      d.initiatorStarted = false → d.state = .idle ∨ d.state = .failed)
    (hcomplete : d.state ≠ .complete) (henc : d.state.Encrypted → (d.lmk? cfg).isSome) :
    Inv cfg { d with pc := .halted } where
  at_ahead := by
    have hnone : ahead cfg.role .halted d.state d.initiatorStarted = none := by
      cases cfg.role <;> rfl
    rw [hnone]
    exact hat.congr rfl rfl rfl
  unstarted := hst
  switchDelay := nofun
  keyTestDelay := nofun
  complete := fun h => absurd h hcomplete
  encrypted := henc

theorem Grows.control (h : Grows cfg d d') {d'' : Device L} (hs : d''.session = d'.session)
    (hn : d''.espNow = d'.espNow) (ht : d''.trace = d'.trace) : Grows cfg d d'' :=
  h.trans (.of_trace hs (by rw [hn]) ⟨[], by rw [List.append_nil, ht]⟩)

/-- A message is rejected. The initiator may still start afterwards. -/
theorem next_failPairing (h : Inv cfg d) (hpc : d.pc = .loop) : Next cfg d (failPairing d) := by
  refine ⟨?_, (Grows.refl d).control rfl rfl rfl⟩
  by_cases hst : cfg.role = .initiator ∧ d.initiatorStarted = false
  · have hahead : ahead cfg.role d.pc d.state d.initiatorStarted =
        some (completionScript .initiator) := by
      rw [hpc, hst.1, hst.2]
      rcases h.unstarted hst.1 hst.2 with hs | hs <;> rw [hs] <;> rfl
    refine .of_loop hpc ?_ (fun _ _ => .inr rfl) fun h' =>
      absurd (show PairingState.failed.Encrypted from h') (by decide)
    have hahead' : ahead cfg.role .loop .failed d.initiatorStarted =
        some (completionScript .initiator) := by rw [hst.1, hst.2]; rfl
    change At cfg (ahead cfg.role .loop .failed d.initiatorStarted) _
    rw [hahead', ← hahead]
    exact h.at_ahead.failPairing
  · refine .of_failed h.at_ahead.stop.failPairing hpc rfl fun hrole => ?_
    have hs := fun hf => hst ⟨hrole, hf⟩
    change d.initiatorStarted = true
    rcases hst' : d.initiatorStarted
    · exact absurd hst' hs
    · rfl

/-! ## The rules of a send and of an exchange -/

/-- **A checked send** of the frame that is next goes on, or halts the device. -/
theorem send_cases {t : MsgType} (h : At cfg (some (.sent t :: r)) d) (env : Env L) (seq : UInt16)
    (payload : Option (List UInt8)) (len : ℕ) (ht : t.isControl = true ↔ .installed ∉ r)
    {next : Device L → Device L} {P : Device L → Prop}
    (hhalt : ∀ d', SameControl d d' → Grows cfg d d' → At cfg none d' → P { d' with pc := .halted })
    (hnext : ∀ d', SameControl d d' → Grows cfg d d' → At cfg (some r) d' → P (next d')) :
    P (espErrorCheck (transmit cfg env t seq payload len d) next) := by
  obtain ⟨hok, hstop, hg⟩ := h.transmit env seq payload len ht
  have hc := sameControl_transmit cfg env t seq payload len d
  unfold espErrorCheck
  split
  · next herr => exact hnext _ hc hg (hok herr)
  · exact hhalt _ hc hg hstop

/-- **An exchange** fails at its handshake call, halts at its reply, or goes on. `hacc` accounts for
the messages accepted in between. -/
theorem exchange_cases {x : Handshake} {input : List UInt8} {ret : FfiRet L}
    {output : Option (List UInt8)} {length : Option ℕ} {accepted : List (Event L)} {t : MsgType}
    {ms : List Milestone} (env : Env L) (seq : UInt16) (payload : Option (List UInt8)) (len : ℕ)
    {onFail next : Device L → Device L} {P : Device L → Prop}
    (h : At cfg (some (.handshake x :: (ms ++ .sent t :: r))) d) (hx : x.role = cfg.role)
    (hout : HandshakeOutcome x output length d.session ret)
    (hr : phaseAt (ms ++ .sent t :: r) = x.target)
    (ht : t.isControl = true ↔ .installed ∉ r)
    (hacc : ∀ d', At cfg (some (ms ++ .sent t :: r)) d' → Processed x input d'.trace →
      At cfg (some (.sent t :: r)) { d' with trace := d'.trace ++ accepted })
    (hfail : ∀ d', SameControl d d' → Grows cfg d d' → At cfg none d' → P (onFail d'))
    (hhalt : ∀ d', SameControl d d' → Grows cfg d d' → At cfg none d' → P { d' with pc := .halted })
    (hnext : ∀ d', SameControl d d' → Grows cfg d d' → At cfg (some r) d' → P (next d')) :
    P (exchange x input ret accepted onFail (transmit cfg env t seq payload len) next d) := by
  obtain ⟨hok, hstop⟩ := h.called input hx hr hout
  have hg := h.grows_called input ret
  have hc : SameControl d (d.called x input ret) := ⟨rfl, rfl, rfl⟩
  unfold exchange
  dsimp only
  split
  · exact hfail _ hc hg hstop
  · next hstatus =>
    rw [not_not] at hstatus
    have hproc : Processed x input (d.called x input ret).trace :=
      ⟨ret, by simp [Device.called], hstatus⟩
    have hg' : Grows cfg d { d.called x input ret with
        trace := (d.called x input ret).trace ++ accepted } :=
      hg.trans (.of_trace rfl rfl (List.prefix_append ..))
    have hc' (d') (h' : SameControl { d.called x input ret with
        trace := (d.called x input ret).trace ++ accepted } d') : SameControl d d' :=
      ⟨h'.state, h'.started, h'.pc⟩
    exact send_cases (hacc _ (hok hstatus) hproc) env seq payload len ht
      (fun d' hcd hgd => hhalt d' (hc' d' hcd) (hg'.trans hgd))
      (fun d' hcd hgd => hnext d' (hc' d' hcd) (hg'.trans hgd))

/-! ## The branches of the handler -/

theorem next_halted (h : Inv cfg d) (hs : d.state ≠ .complete) (hc : SameControl d d')
    (hg : Grows cfg d d') (hat : At cfg none d') : Next cfg d { d' with pc := .halted } := by
  refine ⟨.of_halted hat ?_ (by rwa [hc.state]) ?_, hg.control rfl rfl rfl⟩
  · rw [hc.state, hc.started]
    exact h.unstarted
  · rw [hc.state]
    intro henc
    obtain ⟨lmk, hl⟩ := Option.isSome_iff_exists.mp (h.encrypted henc)
    rw [hg.lmk lmk hl]
    rfl

theorem next_failed (hst : cfg.role = .initiator → d.initiatorStarted = true) (hpc : d.pc = .loop)
    (hc : SameControl d d') (hg : Grows cfg d d') (hat : At cfg none d') :
    Next cfg d (failPairing d') :=
  ⟨.of_failed hat.failPairing (hc.pc.trans hpc) rfl fun hrole => hc.started.trans (hst hrole),
    hg.control rfl rfl rfl⟩

variable (env : Env L)

theorem next_startCheck (h : Inv cfg d) (hpc : d.pc = .loop) (tick : UInt32) :
    Next cfg d (startCheck cfg env d tick) := by
  unfold startCheck
  split
  · next hcond =>
    obtain ⟨hrole, hst, -⟩ := hcond
    have hstate := h.unstarted hrole hst
    have hat : At cfg (some (.handshake .makeMessage1 :: ([] ++ .sent .m1 ::
        (completionScript .initiator).drop 2))) d := by
      have hat := h.at_ahead
      rw [hpc, hrole, hst] at hat
      rcases hstate with hs | hs <;> rw [hs] at hat <;> exact hat
    refine exchange_cases (P := Next cfg d) env 1 _ _ hat hrole.symm
      (makeMessage1_outcome ..) rfl (by decide) ?_ ?_ ?_ ?_
    · intro d' hat' _
      exact hat'.congr rfl rfl (by simp)
    · intro d' hc hg hat'
      exact ⟨.of_failed (hat'.congr rfl rfl rfl) (hc.pc.trans hpc) rfl fun _ => rfl,
        hg.control rfl rfl rfl⟩
    · intro d' hc hg hat'
      refine next_halted h ?_ hc hg hat'
      rcases hstate with hs | hs <;> rw [hs] <;> decide
    · intro d' hc hg hat'
      refine ⟨.of_loop (hc.pc.trans hpc) ?_ nofun nofun, hg.control rfl rfl rfl⟩
      rw [hrole]
      exact hat'.congr rfl rfl rfl
  · exact .refl h

variable {msg : EdhocTransportMsg} (hsid : msg.sessionId = edhocSessionId)
include hsid

theorem next_onMessage2 (h : Inv cfg d) (hpc : d.pc = .loop) (hrole : cfg.role = .initiator)
    (hstate : d.state = .waitM2) (htype : msg.type = MsgType.m2.code) :
    Next cfg d (onMessage2 cfg env msg d) := by
  have hst := h.started hrole (by rw [hstate]; decide) (by rw [hstate]; decide)
  have hat : At cfg (some (.handshake .processMessage2 :: ([.accepted .m2] ++ .sent .m3 ::
      (completionScript .initiator).drop 5))) d := by
    have hat := h.at_ahead
    rw [hpc, hrole, hst, hstate] at hat
    exact hat
  refine exchange_cases (P := Next cfg d) env _ _ _ hat hrole.symm
    (processMessage2_outcome ..) rfl (by decide) ?_ ?_ ?_ ?_
  · intro d' hat' hproc
    exact hat'.accept htype hsid hproc
  · intro d' hc hg hat'
    exact next_failed (fun _ => hst) hpc hc hg hat'
  · intro d' hc hg hat'
    exact next_halted h (by rw [hstate]; decide) hc hg hat'
  · intro d' hc hg hat'
    refine ⟨.of_loop (hc.pc.trans hpc) ?_ ?_ nofun, hg.control rfl rfl rfl⟩
    · rw [hrole, show d'.initiatorStarted = true from hc.started.trans hst]
      exact hat'.congr rfl rfl rfl
    · intro _ hst'
      rw [show d'.initiatorStarted = true from hc.started.trans hst] at hst'
      cases hst'

theorem next_onHandshakeAck (h : Inv cfg d) (hpc : d.pc = .loop) (hrole : cfg.role = .initiator)
    (hstate : d.state = .waitEdhocAck) (htype : msg.type = MsgType.ack.code) :
    Next cfg d (onHandshakeAck cfg env msg d) := by
  have hst := h.started hrole (by rw [hstate]; decide) (by rw [hstate]; decide)
  have hat : At cfg (some (.accepted .ack :: .exported :: .installed ::
      (completionScript .initiator).drop 8)) d := by
    have hat := h.at_ahead
    rw [hpc, hrole, hst, hstate] at hat
    exact hat
  unfold onHandshakeAck
  split
  · exact next_failPairing h hpc
  next hack =>
  rw [Bool.not_eq_false] at hack
  have hat' := hat.accept htype hsid (bytes_of_payloadIs hack)
  obtain ⟨hok, hstop, hg⟩ := hat'.install rfl (by decide) env
  have hg : Grows cfg d _ := (Grows.log d (.accepted msg)).trans hg
  have hc := sameControl_deriveAndInstallLmk cfg env (d.log (.accepted msg))
  dsimp only
  split
  · exact next_failed (fun _ => hst) hpc ⟨hc.state, hc.started, hc.pc⟩ hg hstop
  · next herr =>
    rw [not_not] at herr
    have hst' := hc.started.trans hst
    refine ⟨⟨?_, ?_, nofun, fun _ _ => ⟨hrole, rfl⟩, nofun, fun _ => ?_⟩, hg.control rfl rfl rfl⟩
    · rw [hrole, hst']
      exact (hok herr).congr rfl rfl rfl
    · intro _ h'
      rw [hst'] at h'
      cases h'
    · exact ((hok herr).lmk_left _ rfl).mpr (by decide)

theorem next_onKeyTestAck (h : Inv cfg d) (hpc : d.pc = .loop) (hrole : cfg.role = .initiator)
    (hstate : d.state = .waitKeyTestAck) (htype : msg.type = MsgType.keyTestAck.code) :
    Next cfg d (onKeyTestAck msg d) := by
  have hst := h.started hrole (by rw [hstate]; decide) (by rw [hstate]; decide)
  have hat : At cfg (some [.accepted .keyTestAck]) d := by
    have hat := h.at_ahead
    rw [hpc, hrole, hst, hstate] at hat
    exact hat
  unfold onKeyTestAck
  split
  · exact next_failPairing h hpc
  next hpay =>
  rw [Bool.not_eq_false, verifyControlPayload, htype, if_neg (by decide), if_pos rfl] at hpay
  have hat' := hat.accept htype hsid (bytes_of_payloadIs hpay)
  refine ⟨.of_loop hpc ?_ ?_ fun _ => (hat'.lmk_left _ rfl).mpr (by decide),
    (Grows.log d _).control rfl rfl rfl⟩
  · rw [hrole, show (d.log (.accepted msg)).initiatorStarted = true from hst]
    exact hat'.congr rfl rfl rfl
  · intro _ h'
    rw [show (d.log (.accepted msg)).initiatorStarted = true from hst] at h'
    cases h'

theorem next_onMessage1 (h : Inv cfg d) (hpc : d.pc = .loop) (hrole : cfg.role = .responder)
    (hstate : d.state = .waitM1) (htype : msg.type = MsgType.m1.code) :
    Next cfg d (onMessage1 cfg env msg d) := by
  have hni (h' : cfg.role = .initiator) : False := by rw [hrole] at h'; cases h'
  have hat : At cfg (some (.handshake .processMessage1 :: ([.accepted .m1] ++ .sent .m2 ::
      (completionScript .responder).drop 3))) d := by
    have hat := h.at_ahead
    rw [hpc, hrole, hstate] at hat
    exact hat
  refine exchange_cases (P := Next cfg d) env _ _ _ hat hrole.symm
    (processMessage1_outcome ..) rfl (by decide) ?_ ?_ ?_ ?_
  · intro d' hat' hproc
    exact hat'.accept htype hsid hproc
  · intro d' hc hg hat'
    exact next_failed (fun h' => (hni h').elim) hpc hc hg hat'
  · intro d' hc hg hat'
    exact next_halted h (by rw [hstate]; decide) hc hg hat'
  · intro d' hc hg hat'
    refine ⟨.of_loop (hc.pc.trans hpc) ?_ (fun h' => (hni h').elim) nofun, hg.control rfl rfl rfl⟩
    rw [hrole]
    exact hat'.congr rfl rfl rfl

theorem next_onMessage3 (h : Inv cfg d) (hpc : d.pc = .loop) (hrole : cfg.role = .responder)
    (hstate : d.state = .waitM3) (htype : msg.type = MsgType.m3.code) :
    Next cfg d (onMessage3 cfg env msg d) := by
  have hni (h' : cfg.role = .initiator) : False := by rw [hrole] at h'; cases h'
  have hat : At cfg (some (.handshake .processMessage3 :: ([.accepted .m3] ++ .sent .ack ::
      (completionScript .responder).drop 6))) d := by
    have hat := h.at_ahead
    rw [hpc, hrole, hstate] at hat
    exact hat
  refine exchange_cases (P := Next cfg d) env (msg.seq + 1) (some edhocHandshakeAckPayload)
    (edhocHandshakeAckPayload.length - 1) hat hrole.symm (processMessage3_outcome ..) rfl
    (by decide) ?_ ?_ ?_ ?_
  · intro d' hat' hproc
    exact hat'.accept htype hsid hproc
  · intro d' hc hg hat'
    exact next_failed (fun h' => (hni h').elim) hpc hc hg hat'
  · intro d' hc hg hat'
    exact next_halted h (by rw [hstate]; decide) hc hg hat'
  · intro d' hc hg hat'
    have hstate' := hc.state.trans hstate
    refine ⟨⟨?_, fun h' => (hni h').elim, fun _ => ⟨hrole, hstate'⟩, nofun, ?_, ?_⟩,
      hg.control rfl rfl rfl⟩
    · rw [hrole, hstate']
      exact hat'.congr rfl rfl rfl
    · rw [hstate']; nofun
    · rw [hstate']; nofun

theorem next_onKeyTest (h : Inv cfg d) (hpc : d.pc = .loop) (hrole : cfg.role = .responder)
    (hstate : d.state = .waitKeyTest) (htype : msg.type = MsgType.keyTest.code) :
    Next cfg d (onKeyTest cfg env msg d) := by
  have hni (h' : cfg.role = .initiator) : False := by rw [hrole] at h'; cases h'
  have hat : At cfg (some [.accepted .keyTest, .sent .keyTestAck]) d := by
    have hat := h.at_ahead
    rw [hpc, hrole, hstate] at hat
    exact hat
  unfold onKeyTest
  split
  · exact next_failPairing h hpc
  next hpay =>
  rw [Bool.not_eq_false, verifyControlPayload, if_pos htype] at hpay
  have hg₀ : Grows cfg d (d.log (.accepted msg)) := .log d _
  have hat' := hat.accept htype hsid (bytes_of_payloadIs hpay)
  refine send_cases (P := Next cfg d) hat' env (msg.seq + 1) (some keyTestAckPayload)
    (keyTestAckPayload.length - 1) (by decide) ?_ ?_
  · intro d' hc hg hat'
    exact next_halted h (by rw [hstate]; decide) ⟨hc.state, hc.started, hc.pc⟩ (hg₀.trans hg) hat'
  · intro d' hc hg hat'
    refine ⟨.of_loop (hc.pc.trans hpc) ?_ (fun h' => (hni h').elim)
      fun _ => (hat'.lmk_left _ rfl).mpr (by decide), (hg₀.trans hg).control rfl rfl rfl⟩
    rw [hrole]
    exact hat'.congr rfl rfl rfl

omit hsid

/-! ## Steps and runs -/

theorem next_handleReceivedMessage (h : Inv cfg d) (hpc : d.pc = .loop) (msg : EdhocTransportMsg) :
    Next cfg d (handleReceivedMessage cfg env msg d) := by
  cases handled cfg env msg d with
  | rejected hsid hd => rw [hd]; exact next_failPairing h hpc
  | ignored hsid hawait hd => rw [hd]; exact .refl h
  | accepted t hsid hrole hs htype hd =>
    rw [hd]
    cases t with
    | m1 => exact next_onMessage1 env hsid h hpc hrole hs htype
    | m2 => exact next_onMessage2 env hsid h hpc hrole hs htype
    | m3 => exact next_onMessage3 env hsid h hpc hrole hs htype
    | ack => exact next_onHandshakeAck env hsid h hpc hrole hs htype
    | keyTest => exact next_onKeyTest env hsid h hpc hrole hs htype
    | keyTestAck => exact next_onKeyTestAck hsid h hpc hrole hs htype

theorem next_switchDelay (h : Inv cfg d) (hpc : d.pc = .switchDelay) :
    Next cfg d (afterDelay cfg env d) := by
  obtain ⟨hrole, hstate⟩ := h.switchDelay hpc
  have hni (h' : cfg.role = .initiator) : False := by rw [hrole] at h'; cases h'
  have hat : At cfg (some (.exported :: .installed :: (completionScript .responder).drop 8))
      { d with pc := .loop } := by
    have hat := h.at_ahead
    rw [hpc, hrole, hstate] at hat
    exact hat.congr rfl rfl rfl
  obtain ⟨hok, hstop, hg⟩ := hat.install rfl (by decide) env
  have hg₀ : Grows cfg d { d with pc := .loop } := (Grows.refl d).control rfl rfl rfl
  have hg := hg₀.trans hg
  have hc := sameControl_deriveAndInstallLmk cfg env { d with pc := .loop }
  unfold afterDelay
  rw [hpc]
  dsimp only
  split
  · exact ⟨.of_failed hstop.failPairing hc.pc rfl fun h' => (hni h').elim, hg.control rfl rfl rfl⟩
  · next herr =>
    rw [not_not] at herr
    refine ⟨.of_loop hc.pc ?_ (fun h' => (hni h').elim)
      fun _ => ((hok herr).lmk_left _ rfl).mpr (by decide), hg.control rfl rfl rfl⟩
    rw [hrole]
    exact (hok herr).congr rfl rfl rfl

theorem next_keyTestDelay (h : Inv cfg d) {seq : UInt16} (hpc : d.pc = .keyTestDelay seq) :
    Next cfg d (afterDelay cfg env d) := by
  obtain ⟨hrole, hstate⟩ := h.keyTestDelay seq hpc
  have hst := h.started hrole (by rw [hstate]; decide) (by rw [hstate]; decide)
  have hat : At cfg (some (.sent .keyTest :: (completionScript .initiator).drop 9))
      { d with pc := .loop } := by
    have hat := h.at_ahead
    rw [hpc, hrole, hst, hstate] at hat
    exact hat.congr rfl rfl rfl
  have hg₀ : Grows cfg d { d with pc := .loop } := (Grows.refl d).control rfl rfl rfl
  have henc (d' : Device L) (hg : Grows cfg { d with pc := .loop } d') : (d'.lmk? cfg).isSome := by
    obtain ⟨lmk, hl⟩ := Option.isSome_iff_exists.mp (h.encrypted (by rw [hstate]; decide))
    rw [hg.lmk lmk hl]
    rfl
  unfold afterDelay
  rw [hpc]
  refine send_cases (P := Next cfg d) hat env seq (some keyTestPayload)
    (keyTestPayload.length - 1) (by decide) ?_ ?_
  · intro d' hc hg hat'
    refine ⟨.of_halted hat' ?_ ?_ fun _ => henc d' hg, (hg₀.trans hg).control rfl rfl rfl⟩
    · rw [hc.state, hc.started]
      exact h.unstarted
    · rw [hc.state]
      exact fun h' => absurd (hstate.symm.trans h') (by decide)
  · intro d' hc hg hat'
    change Next cfg d d'
    refine ⟨.of_loop hc.pc ?_ ?_ fun _ => henc d' hg, hg₀.trans hg⟩
    · rw [hrole, show d'.initiatorStarted = true from hc.started.trans hst,
        show d'.state = .waitKeyTestAck from hc.state.trans hstate]
      exact hat'
    · rw [hc.state, hc.started]
      exact h.unstarted

/-- **One step** of the task keeps the invariant and takes nothing back. -/
theorem next_step (h : Inv cfg d) (s : TaskStep L) : Next cfg d (d.step cfg s) := by
  cases s with
  | input i =>
    cases i with
    | startCheck tick env =>
      simp only [Device.step]
      split
      · next hpc => exact next_startCheck env h hpc tick
      · exact .refl h
    | received msg env =>
      simp only [Device.step]
      split
      · next hpc => exact next_handleReceivedMessage env h hpc msg
      · exact .refl h
  | delayOver env =>
    simp only [Device.step]
    cases hpc : d.pc with
    | switchDelay => exact next_switchDelay env h hpc
    | keyTestDelay seq => exact next_keyTestDelay env h hpc
    | loop | halted =>
      unfold afterDelay
      rw [hpc]
      exact .refl h

end Branches

section Runs

variable {cfg : Config} {d : Device L}

theorem inv_run (h : Inv cfg d) (steps : List (TaskStep L)) :
    Inv cfg (run (Device.step cfg) d steps) :=
  Runs.run_inv (G := fun _ _ => True) h (fun _ s hd _ => (next_step hd s).inv)
    (allowed_of_forall fun _ _ _ => trivial)

theorem grows_run (h : Inv cfg d) (steps : List (TaskStep L)) :
    Grows cfg d (run (Device.step cfg) d steps) :=
  run_rel (G := fun _ _ => True) (I := Inv cfg) (R := Grows cfg) Grows.refl
    (fun _ _ _ => Grows.trans) h (fun _ s hd _ => ⟨(next_step hd s).inv, (next_step hd s).grows⟩)
    (allowed_of_forall fun _ _ _ => trivial)

end Runs

/-! ## The boot -/

theorem createSession_context {cfg : Config} {rng : L.Rng} {s : Session L}
    (h : createSession rng cfg.role.code cfg.ownMac.toList cfg.peerMac.toList cfg.espnowChannel =
      .ok s) :
    s.role? = some cfg.role ∧ s.phase? = some .start ∧
      s.exporterContext? = some cfg.exporterContext := by
  obtain ⟨role, hcode, hrole, hphase⟩ := createSession_ok h
  obtain ⟨_, _, hctx⟩ := createSession_exporterContext h
  have heq : role = cfg.role := by
    revert hcode
    cases role <;> cases cfg.role <;> decide
  refine ⟨heq ▸ hrole, hphase, hctx.trans ?_⟩
  unfold Config.exporterContext
  rcases cfg with ⟨_ | _, own, peer, channel, corrupt, rate⟩
  · rfl
  · rfl

/-- What `app_main` hands to `app_task`. -/
theorem appMain_eq_some {cfg : Config} {env : Env L} {created : Bool} {bootTick : UInt32}
    {d : Device L} (h : appMain cfg env created bootTick = some d) :
    d.state = (match cfg.role with | .initiator => .idle | .responder => .waitM1) ∧
      d.initiatorStarted = false ∧ d.pc = .loop ∧ d.trace = [] ∧
      d.espNow.peers = Function.update (fun _ => none) cfg.peerMac
        (some { PeerInfo.zero with peerAddr := cfg.peerMac, channel := cfg.espnowChannel }) ∧
      createSession env.rng cfg.role.code cfg.ownMac.toList cfg.peerMac.toList cfg.espnowChannel =
        .ok d.session := by
  unfold appMain at h
  split at h
  · cases h
  dsimp only at h
  split at h
  · cases h
  next hadd =>
  rw [not_not] at hadd
  split at h
  · cases h
  next hinit =>
  rw [not_not] at hinit
  cases h
  refine ⟨rfl, rfl, rfl, rfl, espnowTransportAddPeer_init hadd, ?_⟩
  unfold wrapLakersEdhocSessionInit at hinit ⊢
  rw [if_neg (by simp)] at hinit ⊢
  split at hinit
  · cases hinit
  next hcreated =>
  rw [if_neg hcreated]
  unfold lakersEdhocSessionInit at hinit ⊢
  dsimp only at hinit ⊢
  split at hinit
  · next heq => rw [heq]
  · next status heq =>
    have hok : status = .ok := hinit
    rcases createSession_error heq with h' | h' <;> rw [hok] at h' <;> cases h'

theorem inv_appMain {cfg : Config} {env : Env L} {created : Bool} {bootTick : UInt32}
    {d : Device L} (h : appMain cfg env created bootTick = some d) : Inv cfg d := by
  obtain ⟨hstate, hst, hpc, htrace, hpeers, hses⟩ := appMain_eq_some h
  obtain ⟨hrole, hphase, hctx⟩ := createSession_context hses
  have hlmk : d.lmk? cfg = none := by
    rw [Device.lmk?, Device.entry, hpeers, Function.update_self]
    rfl
  have hahead : ahead cfg.role .loop d.state d.initiatorStarted =
      some (completionScript cfg.role) := by
    rw [hstate, hst]
    cases cfg.role <;> rfl
  refine .of_loop hpc ?_ (fun h' _ => ?_) fun h' => ?_
  · rw [hahead]
    exact
      { follows := by
          rw [Device.milestones, htrace]
          exact .start
        role_eq := hrole
        phase := fun r hr => by
          cases hr
          rw [hphase]
          cases cfg.role <;> rfl
        context := fun _ => hctx
        peers := ⟨_, hpeers⟩
        lmk_left := fun r hr => by
          cases hr
          rw [hlmk]
          cases cfg.role <;> decide
        lmk_eq := fun lmk hl => by rw [hlmk] at hl; cases hl
        lmk_exported := fun hl => by rw [hlmk] at hl; cases hl
        fits := fun e he => by rw [htrace] at he; cases he }
  · rw [h'] at hstate
    exact .inl hstate
  · rw [hstate] at h'
    cases hr : cfg.role <;> rw [hr] at h' <;> exact absurd h' (by decide)

end EspNowEdhoc
