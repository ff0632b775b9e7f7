import EspNowEdhoc.Device.Calls
import EspNowEdhoc.Transport.Peers

/-!
# The driver of a board is driven by the key manager

* `Driven`: one step of a board leaves the driver alone, or is one call of the key manager.
* **`driven_step`**: each branch of the task.
* **`driver_refines`**: over a run, the driver is that of the call of `app_main` and at most one of
  the key manager, so `peersSound_run` holds of it.
-/

set_option autoImplicit false

namespace EspNowEdhoc

open Runs Script

variable {L : Lakers}

/-! ## One step -/

section Step

variable {cfg : Config} {env : Env L} {d d' : Device L} {msg : EdhocTransportMsg}

/-- An installation of the key manager for `PEER_MAC`. -/
def Config.installs (cfg : Config) (op : KeyOp × EspNowRes) : Prop :=
  ∃ lmk, op.1 = .enableDerived (some cfg.peerMac) (some lmk)

/-- The driver is as before, or after one installation, which comes with an export. -/
inductive Driven (cfg : Config) (d d' : Device L) : Prop
  | same (h : d'.espNow = d.espNow)
  | installed (op : KeyOp × EspNowRes) (ret : FfiRet L) (hop : cfg.installs op)
      (h : d'.espNow = keyStep cfg.espnowChannel d.espNow op)
      (hcalls : d'.calls = d.calls ++ [.exportLmk ret])

theorem espNow_transmit (cfg : Config) (env : Env L) (t : MsgType) (seq : UInt16)
    (payload : Option (List UInt8)) (len : ℕ) (d : Device L) :
    (transmit cfg env t seq payload len d).2.espNow = d.espNow := by
  unfold transmit
  split <;> rfl

theorem espNow_send (t : MsgType) (seq : UInt16) (payload : Option (List UInt8)) (len : ℕ)
    {next : Device L → Device L} (hnext : ∀ d, (next d).espNow = d.espNow) :
    (espErrorCheck (transmit cfg env t seq payload len d) next).espNow = d.espNow := by
  obtain ⟨d', -, -, hd', heq | heq⟩ := send_eq cfg env t seq payload len d next
  · rw [heq, hnext, ← hd', espNow_transmit]
  · rw [heq, ← espNow_transmit cfg env t seq payload len d, hd']

theorem espNow_exchange {x : Handshake} {input : List UInt8} {ret : FfiRet L}
    {accepted : List (Event L)} {onFail next : Device L → Device L} (t : MsgType) (seq : UInt16)
    (payload : Option (List UInt8)) (len : ℕ) (hfail : ∀ d, (onFail d).espNow = d.espNow)
    (hnext : ∀ d, (next d).espNow = d.espNow) :
    (exchange x input ret accepted onFail (transmit cfg env t seq payload len) next d).espNow =
      d.espNow := by
  unfold exchange
  dsimp only
  split
  · exact hfail _
  · exact espNow_send t seq payload len hnext

theorem driven_install (d₁ : Device L) (hesp : d₁.espNow = d.espNow) (hcalls : d₁.calls = d.calls)
    (hesp' : d'.espNow = (deriveAndInstallLmk cfg env d₁).2.espNow)
    (hcalls' : d'.calls = (deriveAndInstallLmk cfg env d₁).2.calls) : Driven cfg d d' := by
  obtain ⟨ret, hret, -⟩ := calls_deriveAndInstallLmk cfg env d₁
  rcases deriveAndInstallLmk_espNow cfg env d₁ with ⟨-, -, hsame⟩ | ⟨lmk, -, hkm⟩
  · exact .same (by rw [hesp', hsame, hesp])
  · refine .installed (.enableDerived (some cfg.peerMac) (some (cfg.lmkToInstall lmk)), env.esp) ret
      ⟨_, rfl⟩ ?_ (by rw [hcalls', hret, hcalls])
    rw [hesp', keyStep, KeyOp.exec, ← hesp]
    exact congrArg Prod.snd hkm

theorem driven_onAwaited (t : MsgType) : Driven cfg d (onAwaited cfg env msg t d) := by
  cases t with
  | m1 => exact .same (espNow_exchange .m2 _ _ _ (fun _ => rfl) fun _ => rfl)
  | m2 => exact .same (espNow_exchange .m3 _ _ _ (fun _ => rfl) fun _ => rfl)
  | m3 =>
    exact .same (espNow_exchange .ack (msg.seq + 1) (some edhocHandshakeAckPayload)
      (edhocHandshakeAckPayload.length - 1) (fun _ => rfl) fun _ => rfl)
  | ack =>
    have hcalls := calls_log_accepted d msg
    dsimp only [onAwaited, onHandshakeAck]
    split
    · exact .same rfl
    split
    · exact driven_install (d.log (.accepted msg)) rfl hcalls rfl rfl
    · exact driven_install (d.log (.accepted msg)) rfl hcalls rfl rfl
  | keyTest =>
    dsimp only [onAwaited, onKeyTest]
    split
    · exact .same rfl
    · exact .same (espNow_send (d := d.log (.accepted msg)) .keyTestAck (msg.seq + 1)
        (some keyTestAckPayload) (keyTestAckPayload.length - 1) fun _ => rfl)
  | keyTestAck =>
    dsimp only [onAwaited, onKeyTestAck]
    split <;> exact .same rfl

/-- **What a step does to the driver.** -/
theorem driven_step (cfg : Config) (d : Device L) (s : TaskStep L) :
    Driven cfg d (d.step cfg s) := by
  cases s with
  | delayOver env =>
    simp only [Device.step]
    unfold afterDelay
    split
    · dsimp only
      split
      · exact driven_install { d with pc := .loop } rfl rfl rfl rfl
      · exact driven_install { d with pc := .loop } rfl rfl rfl rfl
    · exact .same (espNow_send (d := { d with pc := .loop }) .keyTest _ (some keyTestPayload)
        (keyTestPayload.length - 1) fun _ => rfl)
    · exact .same rfl
    · exact .same rfl
  | input i =>
    cases i with
    | startCheck tick env =>
      simp only [Device.step]
      split
      · unfold startCheck
        split
        · exact .same (espNow_exchange .m1 1 _ _ (fun _ => rfl) fun _ => rfl)
        · exact .same rfl
      · exact .same rfl
    | received msg env =>
      simp only [Device.step]
      split
      · cases handled cfg env msg d with
        | rejected _ hd => rw [hd]; exact .same rfl
        | ignored _ _ hd => rw [hd]; exact .same rfl
        | accepted t _ _ _ _ hd => rw [hd]; exact driven_onAwaited t
      · exact .same rfl

end Step

/-! ## Runs -/

section Runs

variable {cfg : Config} {env₀ : Env L} {created : Bool} {bootTick : UInt32} {d₀ d : Device L}

def DrivenBy (cfg : Config) (res : EspNowRes) (installs : List (KeyOp × EspNowRes))
    (d : Device L) : Prop :=
  (∀ op ∈ installs, cfg.installs op) ∧
    d.espNow = run (keyStep cfg.espnowChannel) .init ((.addPeer cfg.peerMac, res) :: installs)

/-- The exports among the calls of a device. -/
def Device.exports (d : Device L) : ℕ := (d.calls.filterMap Event.call?).count .exported

theorem drivenBy_boot (h₀ : appMain cfg env₀ created bootTick = some d₀) :
    DrivenBy cfg env₀.esp [] d₀ := by
  refine ⟨fun _ hop => absurd hop List.not_mem_nil, ?_⟩
  unfold appMain at h₀
  split at h₀
  · cases h₀
  dsimp only at h₀
  split at h₀
  · cases h₀
  split at h₀ <;> cases h₀
  rfl

theorem drivenBy_step {res : EspNowRes} {installs : List (KeyOp × EspNowRes)} (hinv : Inv cfg d)
    (h : DrivenBy cfg res installs d) (hle : installs.length ≤ d.exports) (s : TaskStep L) :
    ∃ installs', DrivenBy cfg res installs' (d.step cfg s) ∧
      installs'.length ≤ (d.step cfg s).exports := by
  cases driven_step cfg d s with
  | same hsame =>
    have hcalls : d.calls <+: (d.step cfg s).calls :=
      (next_step hinv s).grows.trace.filter Event.isCall
    have hexports : d.exports ≤ (d.step cfg s).exports :=
      (hcalls.filterMap Event.call?).sublist.count_le Milestone.exported
    exact ⟨installs, ⟨h.1, hsame.trans h.2⟩, hle.trans hexports⟩
  | installed op ret hop hesp hcalls =>
    refine ⟨installs ++ [op], ⟨?_, ?_⟩, ?_⟩
    · exact fun op' hmem => (List.mem_append.mp hmem).elim (h.1 op') fun hmem => by
        rw [List.mem_singleton.mp hmem]
        exact hop
    · rw [hesp, h.2, ← List.cons_append, run_concat]
    · rw [Device.exports, hcalls, Called.filterMap_concat (m := .exported) rfl, List.count_append,
        List.length_append]
      exact Nat.add_le_add hle le_rfl

theorem drivenBy_run (h₀ : appMain cfg env₀ created bootTick = some d₀)
    (steps : List (TaskStep L)) :
    ∃ installs, DrivenBy cfg env₀.esp installs (run (Device.step cfg) d₀ steps) ∧
      installs.length ≤ (run (Device.step cfg) d₀ steps).exports :=
  (run_inv (I := fun d : Device L => Inv cfg d ∧
      ∃ installs, DrivenBy cfg env₀.esp installs d ∧ installs.length ≤ d.exports)
    (G := fun _ _ => True) ⟨inv_appMain h₀, [], drivenBy_boot h₀, Nat.zero_le _⟩
    (fun _ s h _ => ⟨(next_step h.1 s).inv,
      h.2.elim fun _ hd => drivenBy_step h.1 hd.1 hd.2 s⟩)
    (allowed_of_forall fun _ _ _ => trivial)).2

/-- **The driver of a board** is, at every point of every run, that of the call of `app_main` and of
at most one call of the key manager, both for `PEER_MAC`. So the peer table has no other entry; the
entry of `PEER_MAC` has its address and the channel of the board; and it is encrypted only if the
PMK is installed. -/
theorem driver_refines (h₀ : appMain cfg env₀ created bootTick = some d₀)
    (steps : List (TaskStep L)) :
    let d := run (Device.step cfg) d₀ steps
    (∃ installs : List (KeyOp × EspNowRes), installs.length ≤ 1 ∧
      (∀ op ∈ installs, cfg.installs op) ∧ d.espNow =
        run (keyStep cfg.espnowChannel) .init ((.addPeer cfg.peerMac, env₀.esp) :: installs)) ∧
    ∀ mac e, d.entry mac = some e → mac = cfg.peerMac ∧ e.peerAddr = mac ∧
      e.channel = cfg.espnowChannel ∧ (e.encrypt = true → d.espNow.pmk = some espnowStaticPmk) := by
  intro d
  obtain ⟨installs, ⟨hops, hesp⟩, hle⟩ := drivenBy_run h₀ steps
  have hone : d.exports ≤ 1 := by
    refine ((called_run h₀ steps).follows.isPrefix.sublist.count_le .exported).trans ?_
    cases cfg.role <;> decide
  refine ⟨⟨installs, hle.trans hone, hops, hesp⟩, fun mac e he => ?_⟩
  -- the peer table of those calls
  have hsound := peersSound_run cfg.espnowChannel ((.addPeer cfg.peerMac, env₀.esp) :: installs)
  rw [← hesp] at hsound
  obtain ⟨op, hop, key, hkey, rfl, hpmk⟩ := hsound mac e he
  have hmac : mac = cfg.peerMac := by
    rcases List.mem_cons.mp hop with rfl | hop
    · cases hkey
      rfl
    · obtain ⟨lmk, hlmk⟩ := hops op hop
      rw [hlmk] at hkey
      cases hkey
      rfl
  cases key with
  | none => exact ⟨hmac, rfl, rfl, nofun⟩
  | some lmk => exact ⟨hmac, rfl, rfl, fun _ => hpmk rfl⟩

end Runs

theorem driver_refines_sample :
    (run (Device.step (Config.sample .initiator)) (Device.sample .initiator)
      (sampleSteps .initiator)).espNow.pmk = some espnowStaticPmk := by
  have hencrypt : ((run (Device.step (Config.sample .initiator)) (Device.sample .initiator)
      (sampleSteps .initiator)).entry (Config.sample .initiator).peerMac).map
        PeerInfo.encrypt = some true := by decide
  obtain ⟨e, he, henc⟩ := Option.map_eq_some_iff.mp hencrypt
  exact ((driver_refines (appMain_sample .initiator) _).2 _ e he).2.2.2 henc

end EspNowEdhoc
