import EspNowEdhoc.Device.Diagram

/-!
# The Lakers calls of a board

* `callScript`: the three Lakers calls of a role. `Event.Ok`: a call that has returned `OK`.
* `Called cfg left calls`: the calls so far, and the calls that are left; `Called.next`,
  `Called.last`: one more call.
* **`called_step`**, `called_run`: each branch of the task makes the next call, or none.
* **`calls_bounded`**: whatever a board receives, it makes its three calls at most, in order, and
  none after one that failed.
-/

set_option autoImplicit false

namespace EspNowEdhoc

open Runs Script

variable {L : Lakers}

/-! ## Calls -/

def Event.call? : Event L → Option Milestone
  | .handshake h _ _ => some (.handshake h)
  | .exportLmk _ => some .exported
  | .accepted _ | .sent _ | .installed _ => none

def Event.Ok : Event L → Prop
  | .handshake _ _ ret => ret.status = .ok
  | .exportLmk ret => ret.status = .ok
  | .accepted _ | .sent _ | .installed _ => True

def Milestone.isCall : Milestone → Bool
  | .handshake _ | .exported => true
  | .sent _ | .accepted _ | .installed => false

/-- The Lakers calls of a role. -/
def callScript : Role → List Milestone
  | .initiator => [.handshake .makeMessage1, .handshake .processMessage2, .exported]
  | .responder => [.handshake .processMessage1, .handshake .processMessage3, .exported]

/-- The calls so far follow the script of the role, with those of `left` to come, and have returned
`OK`, all but the last for a board that has stopped. -/
structure Called (cfg : Config) (left : Option (List Milestone)) (calls : List (Event L)) :
    Prop where
  follows : Follows (callScript cfg.role) (calls.filterMap Event.call?)
    (left.map (·.filter Milestone.isCall))
  earlier : ∀ e ∈ calls.dropLast, e.Ok
  all : left ≠ none → ∀ e ∈ calls, e.Ok

namespace Called

variable {cfg : Config} {calls : List (Event L)} {r q : List Milestone} {m : Milestone}
  {e : Event L} {left : Option (List Milestone)}

theorem stop (h : Called cfg left calls) : Called cfg none calls :=
  ⟨h.follows.stop, h.earlier, fun hne => absurd rfl hne⟩

theorem skip (h : Called cfg (some r) calls)
    (hr : r.filter Milestone.isCall = q.filter Milestone.isCall) : Called cfg (some q) calls :=
  ⟨by rw [Option.map_some, ← hr]; exact h.follows, h.earlier, fun _ => h.all nofun⟩

theorem filterMap_concat (hm : e.call? = some m) :
    (calls ++ [e]).filterMap Event.call? = calls.filterMap Event.call? ++ [m] := by
  rw [List.filterMap_append, List.filterMap_cons_some hm, List.filterMap_nil]

theorem next (h : Called cfg (some r) calls) (hm : e.call? = some m)
    (hr : r.filter Milestone.isCall = m :: q.filter Milestone.isCall) (hok : e.Ok) :
    Called cfg (some q) (calls ++ [e]) := by
  have hf := h.follows
  rw [Option.map_some, hr] at hf
  refine ⟨?_, ?_, fun _ e' he' => ?_⟩
  · rw [filterMap_concat hm]
    exact hf.advance (l := [m])
  · rw [List.dropLast_concat]
    exact h.all nofun
  · rcases List.mem_append.mp he' with hin | hin
    · exact h.all nofun e' hin
    · rwa [List.mem_singleton.mp hin]

theorem last (h : Called cfg (some r) calls) (hm : e.call? = some m)
    (hr : r.filter Milestone.isCall = m :: q.filter Milestone.isCall) :
    Called cfg none (calls ++ [e]) := by
  have hf := h.follows
  rw [Option.map_some, hr] at hf
  refine ⟨?_, ?_, fun hne => absurd rfl hne⟩
  · rw [filterMap_concat hm]
    exact (hf.advance (l := [m]) (r := q.filter Milestone.isCall)).stop
  · rw [List.dropLast_concat]
    exact h.all nofun

end Called

/-! ## One step -/

section Step

variable {cfg : Config} {env : Env L} {d : Device L} {msg : EdhocTransportMsg}

def Device.left (cfg : Config) (d : Device L) : Option (List Milestone) :=
  ahead cfg.role d.pc d.state d.initiatorStarted

theorem left_eq {role : Role} {pc : Pc} {s : PairingState} {started : Bool}
    (hrole : cfg.role = role) (hpc : d.pc = pc) (hs : d.state = s)
    (hst : d.initiatorStarted = started) : d.left cfg = ahead role pc s started := by
  rw [Device.left, hrole, hpc, hs, hst]

def CalledAt (cfg : Config) (d : Device L) : Prop := Called cfg (d.left cfg) d.calls

theorem left_halted (hpc : d.pc = .halted) : d.left cfg = none := by
  rw [Device.left, hpc]
  cases cfg.role <;> rfl

theorem left_failed (hpc : d.pc = .loop) (hs : d.state = .failed)
    (h : cfg.role = .initiator → d.initiatorStarted = true) : d.left cfg = none := by
  rw [Device.left, hpc, hs]
  cases hrole : cfg.role with
  | initiator => rw [h hrole]; rfl
  | responder => rfl

theorem calls_deriveAndInstallLmk (cfg : Config) (env : Env L) (d : Device L) :
    ∃ ret, (deriveAndInstallLmk cfg env d).2.calls = d.calls ++ [.exportLmk ret] ∧
      ((deriveAndInstallLmk cfg env d).1 = espOk → ret.status = .ok) := by
  obtain ⟨err, n', es, hend, heq⟩ := deriveAndInstallLmk_eq cfg env d.session d.espNow
  rw [heq d rfl rfl]
  cases hend with
  | notExported ret _ =>
    exact ⟨ret, List.filter_append .., fun h => absurd (show espFail = espOk from h) (by decide)⟩
  | @notInstalled ret _ _ _ _ hret _ _ => exact ⟨ret, List.filter_append .., fun _ => hret⟩
  | @installed ret _ _ _ hret _ => exact ⟨ret, List.filter_append .., fun _ => hret⟩

theorem calls_called (d : Device L) (x : Handshake) (input : List UInt8) (ret : FfiRet L) :
    (d.called x input ret).calls = d.calls ++ [.handshake x input ret] := by
  simp [Device.calls, Device.called, Event.isCall]

theorem calledAt_exchange {x : Handshake} {input : List UInt8} {ret : FfiRet L}
    {accepted : List (Event L)} (hacc : accepted.filter Event.isCall = []) (t : MsgType)
    (seq : UInt16) (payload : Option (List UInt8)) (len : ℕ) {onFail next : Device L → Device L}
    {r q : List Milestone} (h : Called cfg (some r) d.calls)
    (hr : r.filter Milestone.isCall = .handshake x :: q.filter Milestone.isCall)
    (hfail : ∀ d', SameControl d d' →
      (onFail d').calls = d'.calls ∧ (onFail d').left cfg = none)
    (hnext : ∀ d', SameControl d d' →
      (next d').calls = d'.calls ∧ (next d').left cfg = some q) :
    CalledAt cfg
      (exchange x input ret accepted onFail (transmit cfg env t seq payload len) next d) := by
  refine exchange_ends (P := CalledAt cfg) hacc t seq payload len ?_ ?_ ?_
  · intro _
    obtain ⟨hcalls, hleft⟩ := hfail (d.called x input ret) ⟨rfl, rfl, rfl⟩
    rw [CalledAt, hleft, hcalls, calls_called]
    exact h.last rfl hr
  · intro d' _ hcalls
    rw [CalledAt, left_halted rfl]
    change Called cfg none d'.calls
    rw [hcalls]
    exact h.last rfl hr
  · intro d' hc hcalls hok
    obtain ⟨hcalls', hleft⟩ := hnext d' hc
    rw [CalledAt, hleft, hcalls', hcalls]
    exact h.next rfl hr hok

theorem calledAt_send (t : MsgType) (seq : UInt16) (payload : Option (List UInt8)) (len : ℕ)
    {next : Device L → Device L} {r q : List Milestone} (h : Called cfg (some r) d.calls)
    (hr : r.filter Milestone.isCall = q.filter Milestone.isCall)
    (hnext : ∀ d', SameControl d d' →
      (next d').calls = d'.calls ∧ (next d').left cfg = some q) :
    CalledAt cfg (espErrorCheck (transmit cfg env t seq payload len d) next) := by
  have hcalls := calls_transmit cfg env t seq payload len d
  obtain ⟨d', hd, -, hd', heq | heq⟩ := send_eq cfg env t seq payload len d next
  · rw [hd'] at hcalls
    rw [heq, CalledAt, (hnext d' hd).2, (hnext d' hd).1, hcalls]
    exact h.skip hr
  · rw [hd'] at hcalls
    rw [heq, CalledAt, left_halted rfl]
    change Called cfg none d'.calls
    rw [hcalls]
    exact h.stop

theorem calledAt_startCheck (h : Inv cfg d) (hc : CalledAt cfg d) (hpc : d.pc = .loop)
    (tick : UInt32) : CalledAt cfg (startCheck cfg env d tick) := by
  unfold startCheck
  split
  · next hdue =>
    have hleft : d.left cfg = some (completionScript .initiator) := by
      rcases h.unstarted hdue.1 hdue.2.1 with hs | hs <;>
      · rw [left_eq hdue.1 hpc hs hdue.2.1]
        rfl
    rw [CalledAt, hleft] at hc
    refine calledAt_exchange (q := (completionScript .initiator).drop 2) rfl .m1 1 _ _ hc rfl
      (fun d' hd => ⟨rfl, ?_⟩) (fun d' hd => ⟨rfl, ?_⟩)
    · exact left_failed (hd.pc.trans hpc) rfl fun _ => rfl
    · exact left_eq (d := { d' with state := .waitM2, initiatorStarted := true }) hdue.1
        (hd.pc.trans hpc) rfl rfl
  · exact hc

theorem calledAt_failPairing (h : Inv cfg d) (hc : CalledAt cfg d) (hpc : d.pc = .loop) :
    CalledAt cfg (failPairing d) := by
  by_cases hst : cfg.role = .initiator ∧ d.initiatorStarted = false
  · have hleft : (failPairing d).left cfg = d.left cfg := by
      rw [left_eq (d := failPairing d) hst.1 hpc rfl hst.2]
      rcases h.unstarted hst.1 hst.2 with hs | hs <;> rw [left_eq hst.1 hpc hs hst.2] <;> rfl
    rw [CalledAt, hleft]
    exact hc
  · have hleft : (failPairing d).left cfg = none := left_failed hpc rfl fun hrole =>
      Bool.eq_true_of_not_eq_false fun hf => hst ⟨hrole, hf⟩
    rw [CalledAt, hleft]
    exact hc.stop

theorem left_waiting (h : Inv cfg d) (hpc : d.pc = .loop) {t : MsgType}
    (hrole : cfg.role = t.receiver) (hs : d.state = t.waiting) :
    d.left cfg = ahead t.receiver .loop t.waiting true := by
  cases t with
  | m2 | ack | keyTestAck =>
    exact left_eq hrole hpc hs (h.started hrole (by rw [hs]; decide) (by rw [hs]; decide))
  | m1 | m3 | keyTest =>
    rw [left_eq hrole hpc hs rfl]
    rfl

theorem calledAt_onAwaited (h : Inv cfg d) (hc : CalledAt cfg d) (hpc : d.pc = .loop) {t : MsgType}
    (hrole : cfg.role = t.receiver) (hs : d.state = t.waiting) :
    CalledAt cfg (onAwaited cfg env msg t d) := by
  have hleft := left_waiting h hpc hrole hs
  have hfail : CalledAt cfg (failPairing d) := calledAt_failPairing h hc hpc
  have hst (hi : cfg.role = .initiator) : d.initiatorStarted = true :=
    h.started hi (by rw [hs]; cases t <;> decide) (by rw [hs]; cases t <;> decide)
  have hfailed (d' : Device L) (hd : SameControl d d') : (failPairing d').calls = d'.calls ∧
      (failPairing d').left cfg = none :=
    ⟨rfl, left_failed (hd.pc.trans hpc) rfl fun hi => hd.started.trans (hst hi)⟩
  rw [CalledAt, hleft] at hc
  cases t with
  | m1 =>
    exact calledAt_exchange (q := (completionScript .responder).drop 3) rfl .m2 _ _ _ hc rfl hfailed
      fun d' hd =>
        ⟨rfl, left_eq (d := { d' with state := .waitM3 }) hrole (hd.pc.trans hpc) rfl rfl⟩
  | m2 =>
    exact calledAt_exchange (q := (completionScript .initiator).drop 5) rfl .m3 _ _ _ hc rfl hfailed
      fun d' hd => ⟨rfl, left_eq (d := { d' with state := .waitEdhocAck }) hrole (hd.pc.trans hpc)
        rfl (hd.started.trans (hst hrole))⟩
  | m3 =>
    exact calledAt_exchange (q := (completionScript .responder).drop 6) rfl .ack (msg.seq + 1)
      (some edhocHandshakeAckPayload) (edhocHandshakeAckPayload.length - 1) hc rfl hfailed
      fun d' hd => ⟨rfl, left_eq (d := { d' with pc := .switchDelay }) hrole rfl
        (hd.state.trans hs) rfl⟩
  | ack =>
    obtain ⟨ret, hcalls, hok⟩ := calls_deriveAndInstallLmk cfg env (d.log (.accepted msg))
    rw [calls_log_accepted] at hcalls
    have hd := sameControl_deriveAndInstallLmk cfg env (d.log (.accepted msg))
    dsimp only [onAwaited, onHandshakeAck]
    split
    · exact hfail
    split
    · rw [CalledAt, (hfailed _ ⟨hd.state, hd.started, hd.pc⟩).2,
        (hfailed _ ⟨hd.state, hd.started, hd.pc⟩).1, hcalls]
      exact hc.last (q := []) rfl rfl
    · next herr =>
      rw [CalledAt, left_eq (d := { (deriveAndInstallLmk cfg env (d.log (.accepted msg))).2 with
        state := .waitKeyTestAck, pc := .keyTestDelay (msg.seq + 1) }) hrole rfl rfl
        (hd.started.trans (hst hrole))]
      change Called cfg _ (deriveAndInstallLmk cfg env (d.log (.accepted msg))).2.calls
      rw [hcalls]
      exact hc.next rfl rfl (hok (not_not.mp herr))
  | keyTest =>
    dsimp only [onAwaited, onKeyTest]
    split
    · exact hfail
    rw [← calls_log_accepted d msg] at hc
    exact calledAt_send (d := d.log (.accepted msg)) (q := []) .keyTestAck (msg.seq + 1)
      (some keyTestAckPayload) (keyTestAckPayload.length - 1) hc rfl fun d' hd =>
        ⟨rfl, left_eq (d := { d' with state := .complete }) hrole (hd.pc.trans hpc) rfl rfl⟩
  | keyTestAck =>
    dsimp only [onAwaited, onKeyTestAck]
    split
    · exact hfail
    · rw [CalledAt, left_eq (d := { d.log (.accepted msg) with state := .complete }) hrole hpc rfl
        (hst hrole)]
      change Called cfg (some []) (d.log (.accepted msg)).calls
      rw [calls_log_accepted]
      exact hc.skip rfl

theorem calledAt_afterDelay (h : Inv cfg d) (hc : CalledAt cfg d) :
    CalledAt cfg (afterDelay cfg env d) := by
  unfold afterDelay
  split
  · next hpc =>
    obtain ⟨hrole, hs⟩ := h.switchDelay hpc
    obtain ⟨ret, hcalls, hok⟩ := calls_deriveAndInstallLmk cfg env { d with pc := .loop }
    have hd := sameControl_deriveAndInstallLmk cfg env { d with pc := .loop }
    rw [CalledAt, left_eq hrole hpc hs rfl] at hc
    dsimp only
    split
    · have hleft : (failPairing (deriveAndInstallLmk cfg env { d with pc := .loop }).2).left cfg =
          none := left_failed hd.pc rfl fun hi => by rw [hrole] at hi; cases hi
      rw [CalledAt, hleft]
      change Called cfg none (deriveAndInstallLmk cfg env { d with pc := .loop }).2.calls
      rw [hcalls]
      exact Called.last (q := []) hc rfl rfl
    · next herr =>
      rw [CalledAt, left_eq (d := { (deriveAndInstallLmk cfg env { d with pc := .loop }).2 with
        state := .waitKeyTest }) hrole hd.pc rfl rfl]
      change Called cfg _ (deriveAndInstallLmk cfg env { d with pc := .loop }).2.calls
      rw [hcalls]
      exact Called.next hc rfl rfl (hok (not_not.mp herr))
  · next seq hpc =>
    obtain ⟨hrole, hs⟩ := h.keyTestDelay seq hpc
    have hst := h.started hrole (by rw [hs]; decide) (by rw [hs]; decide)
    rw [CalledAt, left_eq hrole hpc hs hst] at hc
    exact calledAt_send (d := { d with pc := .loop }) (q := (completionScript .initiator).drop 9)
      .keyTest seq (some keyTestPayload) (keyTestPayload.length - 1) hc rfl fun d' hd =>
        ⟨rfl, left_eq hrole hd.pc (hd.state.trans hs) (hd.started.trans hst)⟩
  · exact hc
  · exact hc

/-- **One step** makes the next call, or none. -/
theorem called_step (h : Inv cfg d) (hc : CalledAt cfg d) (s : TaskStep L) :
    CalledAt cfg (d.step cfg s) := by
  cases s with
  | delayOver env => exact calledAt_afterDelay h hc
  | input i =>
    cases i with
    | startCheck tick env =>
      simp only [Device.step]
      split
      · next hpc => exact calledAt_startCheck h hc hpc tick
      · exact hc
    | received msg env =>
      simp only [Device.step]
      split
      · next hpc =>
        cases handled cfg env msg d with
        | rejected _ hd => rw [hd]; exact calledAt_failPairing h hc hpc
        | ignored _ _ hd => rw [hd]; exact hc
        | accepted t _ hrole hs _ hd => rw [hd]; exact calledAt_onAwaited h hc hpc hrole hs
      · exact hc

end Step

/-! ## Runs -/

section Runs

variable {cfg : Config} {env₀ : Env L} {created : Bool} {bootTick : UInt32} {d₀ : Device L}

theorem calledAt_boot (h₀ : appMain cfg env₀ created bootTick = some d₀) : CalledAt cfg d₀ := by
  obtain ⟨hs, hst, hpc, htrace, -, -⟩ := appMain_eq_some h₀
  have hleft : d₀.left cfg = some (completionScript cfg.role) := by
    rw [left_eq rfl hpc hs hst]
    cases cfg.role <;> rfl
  have hcalls : d₀.calls = [] := by rw [Device.calls, htrace]; rfl
  rw [CalledAt, hleft, hcalls]
  refine ⟨?_, fun e he => absurd he List.not_mem_nil, fun _ e he => absurd he List.not_mem_nil⟩
  cases cfg.role <;> exact .start

theorem called_run (h₀ : appMain cfg env₀ created bootTick = some d₀) (steps : List (TaskStep L)) :
    CalledAt cfg (run (Device.step cfg) d₀ steps) :=
  (run_inv (I := fun d => Inv cfg d ∧ CalledAt cfg d) (G := fun _ _ => True)
    ⟨inv_appMain h₀, calledAt_boot h₀⟩
    (fun _ s h _ => ⟨(next_step h.1 s).inv, called_step h.1 h.2 s⟩)
    (allowed_of_forall fun _ _ _ => trivial)).2

/-- **The work of a board is bounded.** Whatever a board receives in any run, however long, it calls
Lakers three times at most: its calls are the first ones of its role, in order, each once, and all
but the last have returned `OK`. -/
theorem calls_bounded (h₀ : appMain cfg env₀ created bootTick = some d₀)
    (steps : List (TaskStep L)) :
    let d := run (Device.step cfg) d₀ steps
    d.calls.filterMap Event.call? <+: callScript cfg.role ∧ d.calls.length ≤ 3 ∧
      ∀ e ∈ d.calls.dropLast, e.Ok := by
  have hc := called_run h₀ steps
  have hpre := hc.follows.isPrefix
  refine ⟨hpre, ?_, hc.earlier⟩
  have hcalls : ((run (Device.step cfg) d₀ steps).calls.filterMap Event.call?).length =
      (run (Device.step cfg) d₀ steps).calls.length :=
    List.filterMap_length_eq_length.mpr fun e he => by
      have hcall := (List.mem_filter.mp he).2
      cases e <;> first | rfl | cases hcall
  have hlen := hpre.length_le
  rw [hcalls] at hlen
  exact hlen.trans (by cases cfg.role <;> exact le_rfl)

end Runs

theorem calls_bounded_sample :
    let d := run (Device.step (Config.sample .initiator)) (Device.sample .initiator)
      (stepsTo .initiator .complete)
    d.calls.length = 3 ∧ ∀ e ∈ d.calls.dropLast, e.Ok :=
  ⟨by decide, (calls_bounded (appMain_sample .initiator) (stepsTo .initiator .complete)).2.2⟩

end EspNowEdhoc
