import EspNowEdhoc.Device.Invariant

/-!
# The session phase and the encryption boundary

* **`session_in_step`**: between inputs the Rust session is in the phase that the pairing state
  expects, so no FFI call is refused for its phase.
* **`encryption_boundary`**: the peer entry is encrypted exactly on the far side of the switch, and
  every frame is sent on its own side.
-/

set_option autoImplicit false

namespace EspNowEdhoc

open Runs Script

variable {L : Lakers} {cfg : Config} {d : Device L}

/-! ## The session phase -/

def Event.status? : Event L → Option Status
  | .handshake _ _ ret => some ret.status
  | .exportLmk ret => some ret.status
  | _ => none

theorem status_ne_wrongState (h : Inv cfg d) {e : Event L} (he : e ∈ d.trace) :
    e.status? ≠ some .wrongState := by
  have hfits := h.at_ahead.fits e he
  cases e with
  | handshake x input ret => exact fun hs => hfits.1 (Option.some.inj hs)
  | exportLmk ret =>
    have hok : ret.status = .ok := hfits
    rw [Event.status?, hok]
    nofun
  | accepted | sent | installed => nofun

theorem afterDelay_pc (env : Env L) (d : Device L) :
    (afterDelay cfg env d).pc = .loop ∨ (afterDelay cfg env d).pc = .halted := by
  unfold afterDelay
  split
  · have hc := sameControl_deriveAndInstallLmk cfg env { d with pc := .loop }
    dsimp only
    split <;> exact .inl hc.pc
  · unfold espErrorCheck
    split
    · exact .inl (sameControl_transmit cfg env .keyTest ..).pc
    · exact .inr rfl
  · next hpc => exact .inl hpc
  · next hpc => exact .inr hpc

theorem handle_run_pc (cfg : Config) (hd : d.pc = .loop) (inputs : List (Input L)) :
    (run (Device.handle cfg) d inputs).pc = .loop ∨
      (run (Device.handle cfg) d inputs).pc = .halted :=
  run_inv (G := fun _ _ => True) (I := fun d : Device L => d.pc = .loop ∨ d.pc = .halted) (.inl hd)
    (fun _ i _ _ => afterDelay_pc i.env _) (allowed_of_forall fun _ _ _ => trivial)

theorem phase_initiator (h : Inv cfg d) (hpc : d.pc = .loop) (hrole : cfg.role = .initiator) :
    (d.state = .idle → d.session.phase? = some .start) ∧
    (d.state = .waitM2 → d.session.phase? = some .waitM2) ∧
    (d.state = .waitEdhocAck ∨ d.state = .waitKeyTestAck ∨ d.state = .complete →
      d.session.phase? = some .done) := by
  have hat := h.at_ahead.phase
  rw [hpc, hrole] at hat
  have hst (hs : d.state ≠ .idle) (hs' : d.state ≠ .failed) := h.started hrole hs hs'
  refine ⟨fun hs => ?_, fun hs => ?_, ?_⟩
  · rw [hs] at hat
    exact hat _ rfl
  · rw [hst (by rw [hs]; decide) (by rw [hs]; decide), hs] at hat
    exact hat _ rfl
  · rintro (hs | hs | hs) <;>
    · rw [hst (by rw [hs]; decide) (by rw [hs]; decide), hs] at hat
      exact hat _ rfl

theorem phase_responder (h : Inv cfg d) (hpc : d.pc = .loop) (hrole : cfg.role = .responder) :
    (d.state = .waitM1 → d.session.phase? = some .start) ∧
    (d.state = .waitM3 → d.session.phase? = some .waitM3) ∧
    (d.state = .waitKeyTest ∨ d.state = .complete → d.session.phase? = some .done) := by
  have hat := h.at_ahead.phase
  rw [hpc, hrole] at hat
  refine ⟨fun hs => ?_, fun hs => ?_, ?_⟩
  · rw [hs] at hat
    exact hat _ rfl
  · rw [hs] at hat
    exact hat _ rfl
  · rintro (hs | hs) <;>
    · rw [hs] at hat
      exact hat _ rfl

/-- **The pairing state and the Rust session stay in step.** The states are those between two
handled inputs: a start-timer check or a received message is taken through its delay, and during
the responder's `switchDelay` the state is still `WAIT_M3` although the session has completed. In
each of them the session is in the phase the pairing state expects, unless the device has halted; it
has the role of the device, and no FFI call so far has returned `WRONG_STATE`. -/
theorem session_in_step {env₀ : Env L} {created : Bool} {bootTick : UInt32} {d₀ : Device L}
    (h₀ : appMain cfg env₀ created bootTick = some d₀) (inputs : List (Input L)) :
    let d := run (Device.handle cfg) d₀ inputs
    (d.pc ≠ .halted →
      (cfg.role = .initiator →
        (d.state = .idle → d.session.phase? = some .start) ∧
        (d.state = .waitM2 → d.session.phase? = some .waitM2) ∧
        (d.state = .waitEdhocAck ∨ d.state = .waitKeyTestAck ∨ d.state = .complete →
          d.session.phase? = some .done)) ∧
      (cfg.role = .responder →
        (d.state = .waitM1 → d.session.phase? = some .start) ∧
        (d.state = .waitM3 → d.session.phase? = some .waitM3) ∧
        (d.state = .waitKeyTest ∨ d.state = .complete → d.session.phase? = some .done))) ∧
    d.session.role? = some cfg.role ∧
    ∀ e ∈ d.trace, e.status? ≠ some .wrongState := by
  have hpc := handle_run_pc cfg (appMain_eq_some h₀).2.2.1 inputs
  have hinv := inv_run (inv_appMain h₀) (inputs.flatMap Input.steps)
  rw [← Device.handle_run] at hinv
  refine ⟨fun hhalt => ?_, hinv.at_ahead.role_eq, fun e he => status_ne_wrongState hinv he⟩
  have hpc := hpc.resolve_right hhalt
  exact ⟨phase_initiator hinv hpc, phase_responder hinv hpc⟩

theorem session_in_step_sample :
    let d := run (Device.handle (Config.sample .initiator)) (Device.sample .initiator)
      (sampleInputs .initiator)
    d.pc ≠ .halted ∧ d.session.phase? = some .done :=
  have hpc : (run (Device.handle (Config.sample .initiator)) (Device.sample .initiator)
      (sampleInputs .initiator)).pc ≠ .halted := by decide
  ⟨hpc, (((session_in_step (appMain_sample .initiator) (sampleInputs .initiator)).1 hpc).1 rfl).2.2
    (by decide)⟩

/-! ## The encryption boundary -/

theorem lmk?_eq_some {lmk : Lmk} : d.lmk? cfg = some lmk ↔
    ∃ e, d.entry cfg.peerMac = some e ∧ e.encrypt = true ∧ e.lmk = lmk := by
  simp only [Device.lmk?, Option.bind_eq_some_iff, PeerInfo.lmk?, Option.ite_none_right_eq_some,
    Option.some.injEq]

/-- **The encryption boundary is never crossed.** In every state of a run, the entry of `PEER_MAC`
is encrypted only with the exporter output of the completed session, a bit of byte 0 of which the
macro flips; the states after the switch have an encrypted entry; and every frame was sent under an
entry that is encrypted exactly when the frame is a KEY_TEST or a KEY_TEST_ACK. -/
theorem encryption_boundary {env₀ : Env L} {created : Bool} {bootTick : UInt32} {d₀ : Device L}
    (h₀ : appMain cfg env₀ created bootTick = some d₀) (steps : List (TaskStep L)) :
    let d := run (Device.step cfg) d₀ steps
    (∀ e, d.entry cfg.peerMac = some e → e.encrypt = true →
      ∃ done ctx, d.session.done? = some done ∧ d.session.exporterContext? = some ctx ∧
        ∀ i, e.lmk.get i = (L.edhocExporter done 0xF0 ctx.toList 16).get i ^^^
          (if cfg.corruptLmk ∧ i = 0 then 1 else 0)) ∧
    (d.state = .waitKeyTest ∨ d.state = .waitKeyTestAck ∨ d.state = .complete →
      ∃ e, d.entry cfg.peerMac = some e ∧ e.encrypt = true) ∧
    (∀ f ∈ d.sentFrames, f.dest = cfg.peerMac ∧
      ∃ t : MsgType, ∃ e, frameType f.data = t.code ∧ f.entry = some e ∧
        e.encrypt = t.isControl) := by
  have hinv := inv_run (inv_appMain h₀) steps
  generalize run (Device.step cfg) d₀ steps = d at hinv
  refine ⟨fun e he henc => ?_, fun hs => ?_, fun f hf => ?_⟩
  · obtain ⟨done, hdone, hlmk⟩ := hinv.at_ahead.lmk_eq e.lmk (lmk?_eq_some.mpr ⟨e, he, henc, rfl⟩)
    rw [hlmk]
    exact ⟨done, cfg.exporterContext, hdone, hinv.at_ahead.context_of_done hdone,
      get_lmkToInstall cfg done _⟩
  · obtain ⟨lmk, hlmk⟩ := Option.isSome_iff_exists.mp (hinv.encrypted hs)
    obtain ⟨e, he, henc, -⟩ := lmk?_eq_some.mp hlmk
    exact ⟨e, he, henc⟩
  · obtain ⟨ev, hev, heq⟩ := List.mem_filterMap.mp hf
    cases ev with
    | sent f' =>
      cases heq
      obtain ⟨hdest, hsome, -, t, htype, hctl⟩ := hinv.at_ahead.fits _ hev
      obtain ⟨e, he⟩ := Option.isSome_iff_exists.mp hsome
      refine ⟨hdest, t, e, htype, he, ?_⟩
      rw [← hctl, SentFrame.lmk?, he, Option.bind_some, PeerInfo.lmk?]
      cases e.encrypt <;> rfl
    | handshake | exportLmk | accepted | installed => cases heq

/-- A board with the macro has an encrypted entry after the switch; byte 0 of its LMK is not that of
the exporter output. -/
theorem encryption_boundary_sample :
    let cfg := { Config.sample .initiator with corruptLmk := true }
    let d := run (Device.step cfg) (Device.sample .initiator) (sampleSteps .initiator)
    ∃ e ctx, d.entry cfg.peerMac = some e ∧ e.encrypt = true ∧
      e.lmk.get 0 = (Lakers.sample.edhocExporter (7, 9) 0xF0 ctx 16).get 0 ^^^ 1 ∧
      e.lmk.get 1 = (Lakers.sample.edhocExporter (7, 9) 0xF0 ctx 16).get 1 := by
  intro cfg d
  have h₀ : appMain cfg _ true 0 = some (Device.sample .initiator) := appMain_sample .initiator
  obtain ⟨hkey, hencrypted, -⟩ := encryption_boundary h₀ (sampleSteps .initiator)
  obtain ⟨e, he, henc⟩ := hencrypted (by decide)
  obtain ⟨done, ctx, hdone, -, hlmk⟩ := hkey e he henc
  cases hdone.symm.trans (show d.session.prkOut? = some (7, 9) by decide)
  exact ⟨e, ctx.toList, he, henc, hlmk 0, (hlmk 1).trans UInt8.xor_zero⟩

end EspNowEdhoc
