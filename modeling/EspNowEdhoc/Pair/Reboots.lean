import EspNowEdhoc.Pair.Causality

/-!
# Boards that reboot

A failed `ESP_ERROR_CHECK` and a power failure end in a reboot: the board forgets its session, its
peer table and its queue, and runs `app_main` again. The other board goes on.

* `Lives`: two boards, and the frames each has sent before its last boot. `LifeAct`: an act of the
  boards, a reboot, or the late arrival of a frame of an earlier life.
* `Promised`: what the driver promises, and that confirmations come from `PEER_MAC`.
* `Lives.Confirmed x t`: the LMK of `x` is the one under which the other board has once sent a frame
  of type `t`.
* **`complete_across_reboots`**: what `COMPLETE` still means when boards reboot.
-/

set_option autoImplicit false

namespace EspNowEdhoc

open Runs

variable {L : Lakers}

/-! ## The model -/

variable (L) in
/-- Two boards, and the frames that each has sent before its last boot. -/
structure Lives where
  pair : Pair L
  past : Side → List SentFrame

variable (L) in
/-- What can happen next. -/
inductive LifeAct
  | act (act : Act L)
  /-- A board boots again. A boot that stops before `app_task` is no act: nothing runs after it. -/
  | reboot (x : Side) (env : Env L) (created : Bool) (bootTick : UInt32)
  /-- The `n`-th frame that the other board has sent before its last boot arrives. -/
  | late (x : Side) (n : ℕ)

namespace Lives

def sentBy (s : Lives L) (x : Side) : List SentFrame := s.past x ++ (s.pair x).dev.sentFrames

/-- The board `x` boots and forgets everything. -/
def rebooted (s : Lives L) (x : Side) (d : Device L) : Lives L where
  pair := Function.update s.pair x ⟨(s.pair x).cfg, d, .empty⟩
  past := Function.update s.past x (s.sentBy x)

/-- A frame of the other board arrives at `x`. -/
def arrived (s : Lives L) (x : Side) (f : SentFrame) : Lives L :=
  { s with
    pair := Function.update s.pair x ((s.pair x).arrive (s.pair x.other).cfg.ownMac f.data) }

/-- One act. -/
def step (s : Lives L) : LifeAct L → Lives L
  | .act act => { s with pair := s.pair.step act }
  | .reboot x env created bootTick =>
    ((appMain (s.pair x).cfg env created bootTick).map (s.rebooted x)).getD s
  | .late x n => ((s.past x.other)[n]?.map (s.arrived x)).getD s

end Lives

/-- The entry of the board `x` for the other board fits a frame, if this is encrypted. -/
def Fitting (s : Pair L) (x : Side) (f : SentFrame) : Prop :=
  f.lmk?.isSome → ((s x).dev.entry (s x.other).cfg.ownMac).bind PeerInfo.lmk? = f.lmk?

instance (s : Pair L) (x : Side) (f : SentFrame) : Decidable (Fitting s x f) :=
  inferInstanceAs (Decidable (_ → _))

/-- What the driver promises, and that confirmations come from `PEER_MAC`. -/
def Promised (s : Lives L) : LifeAct L → Prop
  | .act (.inject x src _) => src ≠ (s.pair x).cfg.peerMac
  | .act act => EncryptedDelivery s.pair act ∧ FromPeer s.pair act
  | .reboot .. => True
  | .late x n => ∀ f ∈ (s.past x.other)[n]?, Fitting s.pair x f

instance (s : Lives L) : ∀ a : LifeAct L, Decidable (Promised s a)
  | .act (.inject x src _) => inferInstanceAs (Decidable (src ≠ (s.pair x).cfg.peerMac))
  | .act (.startCheck ..) | .act (.poll ..) | .act (.delayOver ..) | .act (.deliver ..) =>
    inferInstanceAs (Decidable (EncryptedDelivery s.pair _ ∧ FromPeer s.pair _))
  | .reboot .. => .isTrue trivial
  | .late x n => inferInstanceAs (Decidable (∀ f ∈ (s.past x.other)[n]?, Fitting s.pair x f))

/-! ## Confirmations -/

/-- The control message that a role handles. -/
def Role.confirmation : Role → MsgType
  | .initiator => .keyTestAck
  | .responder => .keyTest

/-- The type of a frame is that of a message, and it is encrypted if it is a control message. -/
def SentFrame.Typed (f : SentFrame) : Prop :=
  ∃ t : MsgType, frameType f.data = t.code ∧ f.lmk?.isSome = t.isControl

/-- The other board has sent a frame of type `t` under the LMK that `x` has installed. -/
def Lives.Confirmed (s : Lives L) (x : Side) (t : MsgType) : Prop :=
  ∃ f ∈ s.sentBy x.other, frameType f.data = t.code ∧ f.lmk?.isSome ∧
    (s.pair x).dev.lmk? (s.pair x).cfg = f.lmk?

/-- Both boards meet the invariant, and what they have sent before is well formed. -/
structure Sound (s : Lives L) : Prop where
  inv : PairInv s.pair
  past : ∀ x, ∀ f ∈ s.past x, f.Typed

/-- The control packets queued from the peer, and `COMPLETE`, prove a confirmation. -/
structure Vouched (s : Lives L) : Prop where
  queued : ∀ x, ∀ rx ∈ (s.pair x).rxQueue.items, ∀ t : MsgType, t.isControl = true →
    rx.type = t.code → rx.srcMac = (s.pair x).cfg.peerMac → s.Confirmed x t
  complete : ∀ x, (s.pair x).dev.state = .complete → s.Confirmed x (s.pair x).cfg.role.confirmation

section Confirmations

variable {s s' : Lives L} {x : Side} {t : MsgType} {f : SentFrame}

theorem Sound.typed (h : Sound s) (hf : f ∈ s.sentBy x) : f.Typed :=
  (List.mem_append.mp hf).elim (h.past x f) fun hf => (fits_sent (h.inv x) hf).2.2.2

theorem Lives.Confirmed.mono (h : s.Confirmed x t)
    (hlmk : ∀ lmk, (s.pair x).dev.lmk? (s.pair x).cfg = some lmk →
      (s'.pair x).dev.lmk? (s'.pair x).cfg = some lmk)
    (hsent : s.sentBy x.other ⊆ s'.sentBy x.other) : s'.Confirmed x t := by
  obtain ⟨f, hf, htype, hsome, heq⟩ := h
  obtain ⟨lmk, hl⟩ := Option.isSome_iff_exists.mp hsome
  exact ⟨f, hsent hf, htype, hsome, (hlmk lmk (heq.trans hl)).trans hl.symm⟩

/-- **A control frame that arrives is a confirmation**, whenever it was sent. -/
theorem confirmed_of_arrival (h : Sound s) (hf : f ∈ s.sentBy x.other) (hfit : Fitting s.pair x f)
    (ht : t.isControl = true) (htype : frameType f.data = t.code) : s.Confirmed x t := by
  obtain ⟨t', htype', hctl⟩ := h.typed hf
  rw [htype, MsgType.code_inj] at htype'
  rw [← htype', ht] at hctl
  refine ⟨f, hf, htype, hctl, ?_⟩
  have hentry := hfit hctl
  obtain ⟨lmk, hlmk⟩ := Option.isSome_iff_exists.mp hctl
  obtain ⟨e, hpeers⟩ := (h.inv x).at_ahead.peers
  have hmac : (s.pair x.other).cfg.ownMac = (s.pair x).cfg.peerMac := by
    by_contra hne
    rw [Device.entry, hpeers, Function.update_of_ne hne, hlmk] at hentry
    cases hentry
  rw [hmac] at hentry
  exact hentry

theorem not_complete_of_booted {b : Board L} (h : b.Booted) : b.dev.state ≠ .complete := by
  obtain ⟨-, env, created, bootTick, hdev⟩ := h
  rw [(appMain_eq_some hdev).1]
  cases b.cfg.role <;> nofun

theorem Confirming.type_eq {role : Role} {state : PairingState} {msg : EdhocTransportMsg}
    (h : Confirming role state msg) :
    role.confirmation.isControl = true ∧ msg.type = role.confirmation.code := by
  obtain ⟨-, -, t, ht, hctl, htype⟩ := h
  obtain ⟨rfl, -⟩ := awaited_eq_some.mp ht
  cases t with
  | keyTest | keyTestAck => exact ⟨rfl, htype⟩
  | m1 | m2 | m3 | ack => cases hctl

/-! ### Acts of the boards -/

section Act

variable {act : Act L}

theorem confirmed_of_queued (h : Sound s) (hv : Vouched s) (hp : Promised s (.act act))
    {rx : RxPacket} (hrx : rx ∈ (s.pair.boardAfter act).rxQueue.items) (ht : t.isControl = true)
    (htype : rx.type = t.code) (hsrc : rx.srcMac = (s.pair act.side).cfg.peerMac) :
    s.Confirmed act.side t := by
  have hold (hin : rx ∈ (s.pair act.side).rxQueue.items) : s.Confirmed act.side t :=
    hv.queued act.side rx hin t ht htype hsrc
  cases act with
  | startCheck | delayOver => exact hold hrx
  | poll x env => exact hold (mem_poll hrx)
  | inject x src data =>
    rcases mem_arrive hrx with hin | rfl
    · exact hold hin
    · exact absurd hsrc hp
  | deliver x n =>
    simp only [Pair.boardAfter] at hrx
    split at hrx
    · exact hold hrx
    · next f hf =>
      rcases mem_arrive hrx with hin | rfl
      · exact hold hin
      · rw [type_rxPacket] at htype
        have hdel := hp.1
        simp only [EncryptedDelivery, hf] at hdel
        exact confirmed_of_arrival h (List.mem_append_right _ (List.mem_of_getElem? hf)) hdel ht
          htype

theorem confirmed_of_complete (hv : Vouched s) (hp : Promised s (.act act))
    (hc : (s.pair.boardAfter act).dev.state = .complete) :
    s.Confirmed act.side (s.pair act.side).cfg.role.confirmation := by
  by_cases hs : (s.pair act.side).dev.state = .complete
  · exact hv.complete act.side hs
  cases act with
  | deliver x n =>
    simp only [Pair.boardAfter] at hc
    split at hc <;> exact absurd hc hs
  | inject x src data => exact absurd hc hs
  | delayOver x env => exact absurd hc (afterDelay_state_ne hs)
  | startCheck x tick env =>
    simp only [Pair.boardAfter, Board.take, Device.step] at hc
    split at hc
    · exact absurd hc (startCheck_state_ne hs tick)
    · exact absurd hc hs
  | poll x env =>
    simp only [Pair.boardAfter] at hc
    cases polled (s.pair x) env with
    | idle hb => rw [hb] at hc; exact absurd hc hs
    | rejected rx queue _ _ _ hb => rw [hb] at hc; exact absurd hc hs
    | handled rx queue msg hpc hpop hmsg hb =>
      rw [hb] at hc
      have hconf := complete_handle hs hc
      obtain ⟨hctl, htype⟩ := hconf.type_eq
      have hsrc : msg.srcMac = (s.pair x).cfg.peerMac := by
        have hfrom := hp.2
        simp only [FromPeer, espnowTransportRecv, hpop, Option.bind_some, hmsg] at hfrom
        exact hfrom hpc hconf
      refine hv.queued x rx (BoundedQueue.head_mem_of_pop hpop) _ hctl ?_ ?_
      · exact (type_of_parsedMsg hmsg).symm.trans htype
      · exact (parsedMsg_eq_some hmsg).1.symm.trans hsrc

theorem vouched_act (h : Sound s) (hv : Vouched s) (hp : Promised s (.act act)) :
    Vouched (s.step (.act act)) := by
  have hg := (pair_step h.inv act).2
  have hmono {x : Side} {t : MsgType} (hc : s.Confirmed x t) :
      (s.step (.act act)).Confirmed x t := by
    refine hc.mono (fun lmk hl => ?_) fun f hf => ?_
    · change ((s.pair.step act) x).dev.lmk? ((s.pair.step act) x).cfg = some lmk
      rw [(hg x).1]
      exact (hg x).2.lmk lmk hl
    · exact (List.mem_append.mp hf).elim (List.mem_append_left _)
        fun hf => List.mem_append_right _ ((hg.sentFrames x.other).subset hf)
  refine ⟨fun x rx hrx t ht htype hsrc => hmono ?_, fun x hc => ?_⟩
  · change rx ∈ ((s.pair.step act) x).rxQueue.items at hrx
    change rx.srcMac = ((s.pair.step act) x).cfg.peerMac at hsrc
    rw [(hg x).1] at hsrc
    by_cases hx : x = act.side
    · subst hx
      rw [Pair.step_self] at hrx
      exact confirmed_of_queued h hv hp hrx ht htype hsrc
    · rw [Pair.step_of_ne _ act hx] at hrx
      exact hv.queued x rx hrx t ht htype hsrc
  · change ((s.pair.step act) x).dev.state = .complete at hc
    change (s.step (.act act)).Confirmed x ((s.pair.step act) x).cfg.role.confirmation
    rw [(hg x).1]
    refine hmono ?_
    by_cases hx : x = act.side
    · subst hx
      rw [Pair.step_self] at hc
      exact confirmed_of_complete hv hp hc
    · rw [Pair.step_of_ne _ act hx] at hc
      exact hv.complete x hc

end Act

/-! ### Reboots and late frames -/

section Lives

variable {d : Device L} {env : Env L} {created : Bool} {bootTick : UInt32}

theorem sentBy_rebooted (hd : d.trace = []) (y : Side) :
    (s.rebooted x d).sentBy y = s.sentBy y := by
  by_cases hy : y = x
  · subst hy
    simp only [Lives.sentBy, Lives.rebooted, Function.update_self, Device.sentFrames, hd]
    exact List.append_nil _
  · simp only [Lives.sentBy, Lives.rebooted, Function.update_of_ne hy]

theorem sound_rebooted (h : Sound s) (hd : appMain (s.pair x).cfg env created bootTick = some d) :
    Sound (s.rebooted x d) := by
  refine ⟨fun y => ?_, fun y f hf => ?_⟩ <;> by_cases hy : y = x
  · subst hy
    simp only [Lives.rebooted, Function.update_self]
    exact inv_appMain hd
  · simp only [Lives.rebooted, Function.update_of_ne hy]
    exact h.inv y
  · subst hy
    simp only [Lives.rebooted, Function.update_self] at hf
    exact h.typed hf
  · simp only [Lives.rebooted, Function.update_of_ne hy] at hf
    exact h.past y f hf

/-- **A reboot keeps the proofs of the other board**, and the board itself has none to keep. -/
theorem vouched_rebooted (hv : Vouched s)
    (hd : appMain (s.pair x).cfg env created bootTick = some d) : Vouched (s.rebooted x d) := by
  obtain ⟨hstate, -, -, htrace, -⟩ := appMain_eq_some hd
  have hmono {y : Side} {t : MsgType} (hy : y ≠ x) (hc : s.Confirmed y t) :
      (s.rebooted x d).Confirmed y t := by
    refine hc.mono (fun lmk hl => ?_) fun f hf => by rwa [sentBy_rebooted htrace]
    simpa only [Lives.rebooted, Function.update_of_ne hy] using hl
  refine ⟨fun y rx hrx t ht htype hsrc => ?_, fun y hc => ?_⟩ <;> by_cases hy : y = x
  · subst hy
    simp only [Lives.rebooted, Function.update_self] at hrx
    cases hrx
  · simp only [Lives.rebooted, Function.update_of_ne hy] at hrx hsrc
    exact hmono hy (hv.queued y rx hrx t ht htype hsrc)
  · subst hy
    simp only [Lives.rebooted, Function.update_self, hstate] at hc
    cases hrole : (s.pair y).cfg.role <;> rw [hrole] at hc <;> cases hc
  · simp only [Lives.rebooted, Function.update_of_ne hy] at hc ⊢
    exact hmono hy (hv.complete y hc)

theorem arrived_eq (s : Lives L) (x : Side) (f : SentFrame) (y : Side) :
    ((s.arrived x f).pair y).cfg = (s.pair y).cfg ∧
      ((s.arrived x f).pair y).dev = (s.pair y).dev := by
  by_cases hy : y = x
  · subst hy
    have heq : (s.arrived y f).pair y = (s.pair y).arrive (s.pair y.other).cfg.ownMac f.data :=
      Function.update_self ..
    rw [heq]
    exact ⟨rfl, rfl⟩
  · have heq : (s.arrived x f).pair y = s.pair y := Function.update_of_ne hy ..
    rw [heq]
    exact ⟨rfl, rfl⟩

theorem confirmed_arrived {y : Side} : (s.arrived x f).Confirmed y t ↔ s.Confirmed y t := by
  simp only [Lives.Confirmed, Lives.sentBy, arrived_eq]
  rfl

theorem sound_arrived (h : Sound s) : Sound (s.arrived x f) :=
  ⟨fun y => by rw [(arrived_eq s x f y).1, (arrived_eq s x f y).2]; exact h.inv y, h.past⟩

/-- **A late frame is a proof as good as one of the present life.** -/
theorem vouched_arrived (h : Sound s) (hv : Vouched s) (hf : f ∈ s.sentBy x.other)
    (hfit : Fitting s.pair x f) : Vouched (s.arrived x f) := by
  refine ⟨fun y rx hrx t ht htype hsrc => ?_, fun y hc => ?_⟩
  · rw [confirmed_arrived]
    rw [(arrived_eq s x f y).1] at hsrc
    by_cases hy : y = x
    · subst hy
      simp only [Lives.arrived, Function.update_self] at hrx
      rcases mem_arrive hrx with hin | rfl
      · exact hv.queued y rx hin t ht htype hsrc
      · rw [type_rxPacket] at htype
        exact confirmed_of_arrival h hf hfit ht htype
    · simp only [Lives.arrived, Function.update_of_ne hy] at hrx
      exact hv.queued y rx hrx t ht htype hsrc
  · rw [confirmed_arrived, (arrived_eq s x f y).1]
    rw [(arrived_eq s x f y).2] at hc
    exact hv.complete y hc

end Lives

theorem vouched_step {a : LifeAct L} (h : Sound s) (hv : Vouched s) (hp : Promised s a) :
    Sound (s.step a) ∧ Vouched (s.step a) := by
  cases a with
  | act act => exact ⟨⟨(pair_step h.inv act).1, h.past⟩, vouched_act h hv hp⟩
  | reboot x env created bootTick =>
    cases hd : appMain (s.pair x).cfg env created bootTick with
    | none =>
      rw [Lives.step, hd]
      exact ⟨h, hv⟩
    | some d =>
      rw [Lives.step, hd]
      exact ⟨sound_rebooted h hd, vouched_rebooted hv hd⟩
  | late x n =>
    cases hf : (s.past x.other)[n]? with
    | none =>
      rw [Lives.step, hf]
      exact ⟨h, hv⟩
    | some f =>
      rw [Lives.step, hf]
      exact ⟨sound_arrived h,
        vouched_arrived h hv (List.mem_append_left _ (List.mem_of_getElem? hf)) (hp f hf)⟩

end Confirmations

/-! ## Runs -/

def Pair.firstLives (s : Pair L) : Lives L := ⟨s, fun _ => []⟩

/-- **What `COMPLETE` means across reboots.** Both boards boot, and reboot any number of times at
any point; a third station injects frames, frames of earlier lives arrive late, and the
confirmations that are handled come from `PEER_MAC`. Whenever a board is in `COMPLETE`, the other
has sent the confirmation under the very LMK that is installed here; and unless it has rebooted
since, it has that LMK still. -/
theorem complete_across_reboots {s₀ : Pair L} (hboot : ∀ x, (s₀ x).Booted)
    {acts : List (LifeAct L)} (hp : Allowed Lives.step Promised s₀.firstLives acts) (x : Side) :
    let s := run Lives.step s₀.firstLives acts
    (s.pair x).dev.state = .complete → ∃ lmk, (s.pair x).dev.lmk? (s.pair x).cfg = some lmk ∧
      ∃ f ∈ s.sentBy x.other, frameType f.data = (s.pair x).cfg.role.confirmation.code ∧
        f.lmk? = some lmk ∧
        (f ∈ s.past x.other ∨ (s.pair x.other).dev.lmk? (s.pair x.other).cfg = some lmk) := by
  intro s hc
  have hfirst : Sound s₀.firstLives ∧ Vouched s₀.firstLives := by
    refine ⟨⟨fun y => inv_booted (hboot y), fun y f hf => absurd hf List.not_mem_nil⟩, ?_, ?_⟩
    · intro y rx hrx
      have hempty : (s₀ y).rxQueue = .empty := (hboot y).1
      change rx ∈ (s₀ y).rxQueue.items at hrx
      rw [hempty] at hrx
      cases hrx
    · exact fun y hc => absurd hc (not_complete_of_booted (hboot y))
  obtain ⟨hsound, hv⟩ : Sound s ∧ Vouched s := run_inv (I := fun s => Sound s ∧ Vouched s) hfirst
    (fun _ _ hs hact => vouched_step hs.1 hs.2 hact) hp
  obtain ⟨f, hf, htype, hsome, heq⟩ := hv.complete x hc
  obtain ⟨lmk, hlmk⟩ := Option.isSome_iff_exists.mp hsome
  refine ⟨lmk, heq.trans hlmk, f, hf, htype, hlmk, (List.mem_append.mp hf).imp_right fun hf => ?_⟩
  exact ((fits_sent (hsound.inv x.other) hf).2.2.1 hsome).trans hlmk

/-- A pairing, after which the responder reboots. -/
def rebootActs : List (LifeAct Lakers.sample) :=
  sampleActs.map .act ++ [.reboot .b .sample true 7]

/-- The initiator keeps an LMK that the responder no longer has. -/
theorem complete_across_reboots_sample :
    let s := run Lives.step Pair.sample.firstLives rebootActs
    ∃ lmk, (s.pair .a).dev.lmk? (s.pair .a).cfg = some lmk ∧
      ∃ f ∈ s.past .b, f.lmk? = some lmk := by
  intro s
  have hp : Allowed Lives.step Promised Pair.sample.firstLives rebootActs := by decide
  obtain ⟨lmk, hlmk, f, -, -, hf, hpast⟩ :=
    complete_across_reboots booted_sample hp .a (by decide)
  have hnone : (s.pair .b).dev.lmk? (s.pair .b).cfg = none := by decide
  refine ⟨lmk, hlmk, f, hpast.resolve_right fun h => ?_, hf⟩
  cases hnone.symm.trans h

end EspNowEdhoc
