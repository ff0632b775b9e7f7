import EspNowEdhoc.Device.Final

/-!
# A pairing never goes back

* `PairingState.rank`, `Device.stage`: how far a pairing has got.
* `Onward`: the pairing state stays or moves to a higher rank; **`onward_onAwaited`** for each
  branch of the handler.
* `Later`, **`later_handle`**: no input takes a pairing back, and one that changes the pairing state
  takes it further.
* **`duplicates_harmless`**: copies of a message that has changed the pairing state do nothing
  later.
-/

set_option autoImplicit false

namespace EspNowEdhoc

open Runs

variable {L : Lakers}

/-- The pairing states in the order they are reached. -/
def PairingState.rank : PairingState → ℕ
  | .idle | .waitM1 => 0
  | .waitM2 | .waitM3 => 2
  | .waitEdhocAck | .waitKeyTest => 3
  | .waitKeyTestAck => 4
  | .complete => 5
  | .failed => 6

theorem PairingState.rank_lt_failed {s : PairingState} (h : s ≠ .failed) :
    s.rank < PairingState.failed.rank := by
  cases s <;> first | decide | exact absurd rfl h

/-- How far the pairing has got. An initiator that has not started may still start after a
failure. -/
def Device.stage (cfg : Config) (d : Device L) : ℕ :=
  if cfg.role = .initiator ∧ d.initiatorStarted = false then if d.state = .failed then 1 else 0
  else d.state.rank

/-- The pairing state is the same or one of a higher rank. -/
def Onward (d d' : Device L) : Prop :=
  d'.initiatorStarted = d.initiatorStarted ∧ (d'.state = d.state ∨ d.state.rank < d'.state.rank)

section Onward

variable {cfg : Config} {env : Env L} {d d' : Device L} {msg : EdhocTransportMsg}

theorem onward_failPairing (hs : d.state ≠ .failed) (h : SameControl d d') :
    Onward d (failPairing d') := ⟨h.started, .inr (PairingState.rank_lt_failed hs)⟩

theorem onward_afterDelay (h : Onward d d') (hpc : d'.pc = .loop ∨ d'.pc = .halted) :
    Onward d (afterDelay cfg env d') := by
  rcases hpc with hpc | hpc
  · rwa [afterDelay_of_loop hpc]
  · rwa [afterDelay_of_halted hpc]

theorem handle_of_halted (hpc : d.pc = .halted) (i : Input L) : d.handle cfg i = d := by
  have hstep : d.step cfg (.input i) = d := by
    cases i <;> exact if_neg (by rw [hpc]; nofun)
  change afterDelay cfg i.env (d.step cfg (.input i)) = d
  rw [hstep, afterDelay_of_halted hpc]

theorem onward_switchDelay (hs : d.state = .waitM3) (h : SameControl d d') :
    Onward d (afterDelay cfg env { d' with pc := .switchDelay }) := by
  have hc := sameControl_deriveAndInstallLmk cfg env { d' with pc := .loop }
  have hstarted := hc.started.trans h.started
  unfold afterDelay
  dsimp only
  split
  · exact ⟨hstarted, .inr (by rw [hs]; exact PairingState.rank_lt_failed (by decide))⟩
  · exact ⟨hstarted, .inr (by rw [hs]; exact Nat.lt_succ_self 2)⟩

theorem onward_onHandshakeAck (hpc : d.pc = .loop) (hs : d.state = .waitEdhocAck) :
    Onward d (afterDelay cfg env (onHandshakeAck cfg env msg d)) := by
  have hne : d.state ≠ .failed := by rw [hs]; decide
  have hc := sameControl_deriveAndInstallLmk cfg env (d.log (.accepted msg))
  unfold onHandshakeAck
  split
  · exact onward_afterDelay (onward_failPairing hne ⟨rfl, rfl, rfl⟩) (.inl hpc)
  dsimp only
  split
  · exact onward_afterDelay (onward_failPairing hne ⟨hc.state, hc.started, hc.pc⟩)
      (.inl (hc.pc.trans hpc))
  · obtain ⟨hstate, hstarted⟩ := afterDelay_keyTestDelay cfg env (d :=
      { (deriveAndInstallLmk cfg env (d.log (.accepted msg))).2 with
        state := .waitKeyTestAck, pc := .keyTestDelay (msg.seq + 1) }) rfl
    refine ⟨hstarted.trans hc.started, .inr ?_⟩
    rw [hs, hstate]
    exact Nat.lt_succ_self 3

theorem onward_onAwaited (hpc : d.pc = .loop) {t : MsgType} (hs : d.state = t.waiting) :
    Onward d (afterDelay cfg env (onAwaited cfg env msg t d)) := by
  have hne : d.state ≠ .failed := by rw [hs]; cases t <;> decide
  have hfail (d' : Device L) (h : SameControl d d') :
      Onward d (afterDelay cfg env (failPairing d')) :=
    onward_afterDelay (onward_failPairing hne h) (.inl (h.pc.trans hpc))
  have hhalt (d' : Device L) (h : SameControl d d') :
      Onward d (afterDelay cfg env { d' with pc := .halted }) :=
    onward_afterDelay ⟨h.started, .inl h.state⟩ (.inr rfl)
  have hnext (s : PairingState) (hlt : t.waiting.rank < s.rank) (d' : Device L)
      (h : SameControl d d') : Onward d (afterDelay cfg env { d' with state := s }) :=
    onward_afterDelay ⟨h.started, .inr (by rw [hs]; exact hlt)⟩ (.inl (h.pc.trans hpc))
  cases t with
  | m1 =>
    exact exchange_control (P := fun d' => Onward d (afterDelay cfg env d')) .m2 _ _ _ hfail hhalt
      (hnext .waitM3 (by decide))
  | m2 =>
    exact exchange_control (P := fun d' => Onward d (afterDelay cfg env d')) .m3 _ _ _ hfail hhalt
      (hnext .waitEdhocAck (by decide))
  | m3 =>
    exact exchange_control (P := fun d' => Onward d (afterDelay cfg env d')) .ack (msg.seq + 1)
      (some edhocHandshakeAckPayload) (edhocHandshakeAckPayload.length - 1) hfail hhalt
      fun d' h => onward_switchDelay hs h
  | ack => exact onward_onHandshakeAck hpc hs
  | keyTest =>
    dsimp only [onAwaited, onKeyTest]
    split
    · exact hfail d ⟨rfl, rfl, rfl⟩
    obtain ⟨d', hc, -, -, heq | heq⟩ := send_eq cfg env .keyTestAck (msg.seq + 1)
      (some keyTestAckPayload) (keyTestAckPayload.length - 1) (d.log (.accepted msg))
      fun d => { d with state := .complete }
    · rw [sendControlMessage_keyTestAck, heq]
      exact hnext .complete (by decide) d' ⟨hc.state, hc.started, hc.pc⟩
    · rw [sendControlMessage_keyTestAck, heq]
      exact hhalt d' ⟨hc.state, hc.started, hc.pc⟩
  | keyTestAck =>
    dsimp only [onAwaited, onKeyTestAck]
    split
    · exact hfail d ⟨rfl, rfl, rfl⟩
    · exact hnext .complete (by decide) (d.log (.accepted msg)) ⟨rfl, rfl, rfl⟩

end Onward

/-! ## Stages -/

/-- The pairing state and the start flag are the same, or the pairing has got further. -/
def Later (cfg : Config) (d d' : Device L) : Prop :=
  (d'.state = d.state ∧ d'.initiatorStarted = d.initiatorStarted) ∨ d.stage cfg < d'.stage cfg

section Stage

variable {cfg : Config} {env : Env L} {d d' : Device L} {msg : EdhocTransportMsg}

theorem stage_of_started (hst : cfg.role = .initiator → d.initiatorStarted = true) :
    d.stage cfg = d.state.rank := by
  unfold Device.stage
  rw [if_neg]
  rintro ⟨hrole, hf⟩
  rw [hst hrole] at hf
  cases hf

theorem stage_of_not_started (hrole : cfg.role = .initiator) (hst : d.initiatorStarted = false) :
    d.stage cfg ≤ 1 := by
  unfold Device.stage
  rw [if_pos ⟨hrole, hst⟩]
  split <;> decide

theorem Later.le (h : Later cfg d d') : d.stage cfg ≤ d'.stage cfg := by
  rcases h with ⟨hs, hst⟩ | h
  · unfold Device.stage
    rw [hs, hst]
  · exact h.le

theorem Later.lt (h : Later cfg d d') (hs : d'.state ≠ d.state) : d.stage cfg < d'.stage cfg :=
  h.resolve_left fun h' => hs h'.1

theorem Onward.later (h : Onward d d') (hst : cfg.role = .initiator → d.initiatorStarted = true) :
    Later cfg d d' := by
  obtain ⟨hstarted, hs | hlt⟩ := h
  · exact .inl ⟨hs, hstarted⟩
  · refine .inr ?_
    rwa [stage_of_started hst, stage_of_started fun hrole => hstarted.trans (hst hrole)]

theorem later_failPairing (d : Device L) : Later cfg d (failPairing d) := by
  by_cases hs : d.state = .failed
  · exact .inl ⟨hs.symm, rfl⟩
  refine .inr ?_
  by_cases hst : cfg.role = .initiator ∧ d.initiatorStarted = false
  · have h0 : d.stage cfg = 0 := by rw [Device.stage, if_pos hst, if_neg hs]
    have h1 : (failPairing d).stage cfg = 1 := by
      rw [Device.stage, if_pos (show _ ∧ (failPairing d).initiatorStarted = false from hst)]
      rfl
    omega
  · have hd : d.stage cfg = d.state.rank := if_neg hst
    have hd' : (failPairing d).stage cfg = PairingState.failed.rank := if_neg hst
    rw [hd, hd']
    exact PairingState.rank_lt_failed hs

theorem later_startCheck (hpc : d.pc = .loop) (tick : UInt32) :
    Later cfg d (afterDelay cfg env (startCheck cfg env d tick)) := by
  unfold startCheck
  split
  · next hdue =>
    have hle := stage_of_not_started hdue.1 hdue.2.1
    have hlt (d' : Device L) (h : d'.pc = .loop) (hst : d'.initiatorStarted = true)
        (hrank : 1 < d'.state.rank) : Later cfg d (afterDelay cfg env d') := by
      rw [afterDelay_of_loop h]
      refine .inr (hle.trans_lt ?_)
      rwa [stage_of_started fun _ => hst]
    refine exchange_control (P := fun d' => Later cfg d (afterDelay cfg env d')) .m1 1 _ _
      (fun d' h => hlt _ (h.pc.trans hpc) rfl ?_) (fun d' h => ?_)
      fun d' h => hlt _ (h.pc.trans hpc) rfl ?_
    · exact Nat.lt_of_sub_eq_succ rfl
    · rw [afterDelay_of_halted rfl]
      exact .inl ⟨h.state, h.started⟩
    · exact Nat.lt_succ_self 1
  · rw [afterDelay_of_loop hpc]
    exact .inl ⟨rfl, rfl⟩

/-- **An input never takes a pairing back**, and takes it further if it changes the pairing
state. -/
theorem later_handle (hinv : Inv cfg d) (hpc : d.pc = .loop ∨ d.pc = .halted) (i : Input L) :
    Later cfg d (d.handle cfg i) := by
  rcases hpc with hpc | hpc
  · cases i with
    | startCheck tick env =>
      have heq : d.handle cfg (.startCheck tick env) =
          afterDelay cfg env (startCheck cfg env d tick) := by
        change afterDelay cfg env (if d.pc = .loop then _ else d) = _
        rw [if_pos hpc]
      rw [heq]
      exact later_startCheck hpc tick
    | received msg env =>
      rw [handle_received hpc]
      cases handled cfg env msg d with
      | rejected hsid hd =>
        rw [hd, afterDelay_of_loop (d := failPairing d) hpc]
        exact later_failPairing d
      | ignored hsid hawait hd =>
        rw [hd, afterDelay_of_loop hpc]
        exact .inl ⟨rfl, rfl⟩
      | accepted t hsid hrole hs htype hd =>
        rw [hd]
        refine (onward_onAwaited hpc hs).later fun hi => ?_
        exact hinv.started hi (by rw [hs]; cases t <;> decide) (by rw [hs]; cases t <;> decide)
  · rw [handle_of_halted hpc]
    exact .inl ⟨rfl, rfl⟩

end Stage

/-! ## Duplicates -/

/-- The board is between inputs and further than a stage. -/
structure Past (cfg : Config) (n : ℕ) (d : Device L) : Prop where
  inv : Inv cfg d
  pc : d.pc = .loop ∨ d.pc = .halted
  stage : n < d.stage cfg

def Input.IsCopy (msg : EdhocTransportMsg) (i : Input L) : Prop := ∃ env, i = .received msg env

section Past

variable {cfg : Config} {d : Device L} {msg : EdhocTransportMsg} {n : ℕ}

theorem Past.handle (h : Past cfg n d) (i : Input L) : Past cfg n (d.handle cfg i) where
  inv := inv_run h.inv i.steps
  pc := afterDelay_pc i.env _
  stage := h.stage.trans_le (later_handle h.inv h.pc i).le

theorem Past.handle_copy {t : MsgType} (h : Past cfg t.waiting.rank d)
    (hsid : msg.sessionId = edhocSessionId) (htype : msg.type = t.code) {i : Input L}
    (hi : i.IsCopy msg) : d.handle cfg i = d := by
  obtain ⟨env, rfl⟩ := hi
  rcases h.pc with hpc | hpc
  · rw [handle_received hpc]
    cases handled cfg env msg d with
    | rejected hsid' hd => exact absurd hsid hsid'
    | ignored _ hawait hd => rw [hd, afterDelay_of_loop hpc]
    | accepted t' _ hrole hs htype' hd =>
      have ht : t' = t := MsgType.code_inj.mp (htype'.symm.trans htype)
      have hst (hr : cfg.role = .initiator) : d.initiatorStarted = true :=
        h.inv.started hr (by rw [hs]; cases t' <;> decide) (by rw [hs]; cases t' <;> decide)
      have hlt := h.stage
      rw [stage_of_started hst, hs, ht] at hlt
      exact absurd hlt (lt_irrefl _)
  · exact handle_of_halted hpc _

/-- A message of the session that changes the pairing state is the one the state awaits, and leaves
that state behind. -/
theorem past_of_changed (hinv : Inv cfg d) (hpc : d.pc = .loop ∨ d.pc = .halted) (env : Env L)
    (hsid : msg.sessionId = edhocSessionId)
    (hchanged : (d.handle cfg (.received msg env)).state ≠ d.state) :
    ∃ t : MsgType, msg.type = t.code ∧
      Past cfg t.waiting.rank (d.handle cfg (.received msg env)) := by
  have hlater := later_handle hinv hpc (.received msg env)
  have hloop : d.pc = .loop := hpc.resolve_right fun hhalt => by
    rw [handle_of_halted hhalt] at hchanged
    exact hchanged rfl
  cases handled cfg env msg d with
  | rejected hsid' hd => exact absurd hsid hsid'
  | ignored _ hawait hd =>
    rw [handle_received hloop, hd, afterDelay_of_loop hloop] at hchanged
    exact absurd rfl hchanged
  | accepted t _ hrole hs htype hd =>
    have hst (hr : cfg.role = .initiator) : d.initiatorStarted = true :=
      hinv.started hr (by rw [hs]; cases t <;> decide) (by rw [hs]; cases t <;> decide)
    refine ⟨t, htype, inv_run hinv (Input.received msg env).steps, afterDelay_pc env _, ?_⟩
    have hlt := hlater.lt hchanged
    rwa [stage_of_started hst, hs] at hlt

end Past

/-- **Duplicates of a consumed message are harmless.** Take a run, and in it a message of the
session that changes the pairing state when it is handled. Copies of that message, put in anywhere
later, leave the end of the run as it is: the pairing state, the session, the peer entry and the
frames sent. -/
theorem duplicates_harmless {cfg : Config} {env₀ : Env L} {created : Bool} {bootTick : UInt32}
    {d₀ : Device L} (h₀ : appMain cfg env₀ created bootTick = some d₀)
    (before after after' : List (Input L)) (msg : EdhocTransportMsg) (env : Env L)
    (hsid : msg.sessionId = edhocSessionId)
    (hchanged : (run (Device.handle cfg) d₀ (before ++ [.received msg env])).state ≠
      (run (Device.handle cfg) d₀ before).state)
    (hcopies : Inserted (Input.IsCopy msg) after after') :
    Unchanged cfg (run (Device.handle cfg) d₀ (before ++ .received msg env :: after))
      (run (Device.handle cfg) d₀ (before ++ .received msg env :: after')) := by
  have hinv : Inv cfg (run (Device.handle cfg) d₀ before) := by
    rw [Device.handle_run]
    exact inv_run (inv_appMain h₀) _
  have hpc := handle_run_pc cfg (appMain_eq_some h₀).2.2.1 before
  rw [run_concat] at hchanged
  obtain ⟨t, htype, hpast⟩ := past_of_changed hinv hpc env hsid hchanged
  have heq := run_inserted hpast (fun d i h => h.handle i)
    (fun d i h hi => h.handle_copy hsid htype hi) hcopies
  rw [run_append, run_cons, run_append, run_cons, heq]
  exact ⟨rfl, rfl, rfl, rfl⟩

theorem duplicates_harmless_sample :
    let m2 := EdhocTransportMsg.ofPayload (Config.sample .responder).ownMac .m2 2 sampleMessage2
    let run := run (Device.handle (Config.sample .initiator)) (Device.sample .initiator)
    Unchanged (Config.sample .initiator)
      (run [.startCheck 2000 .sample, .received m2 .sample])
      (run [.startCheck 2000 .sample, .received m2 .sample, .received m2 .sample]) :=
  duplicates_harmless (appMain_sample .initiator) [.startCheck 2000 .sample] []
    [.received (.ofPayload (Config.sample .responder).ownMac .m2 2 sampleMessage2) .sample] _ _ rfl
    (by decide) (.insert ⟨_, rfl⟩ .nil)

end EspNowEdhoc
