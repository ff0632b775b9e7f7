import EspNowEdhoc.Device.Sender
import EspNowEdhoc.Pair.Agreement

/-!
# Key confirmation

* `Pair.Agreed`: both boards have the same LMK installed. `Confirms`: a queued control packet of
  the peer, or a board in `COMPLETE`, is a proof of that; **`confirms_step`**.
* **`wrong_key_never_passes`**: with the boards' own frames only, `COMPLETE` means agreement.
* **`forged_confirmation`**: a third station completes the initiator alone.
* **`key_confirmation`**: as long as the confirmations come from `PEER_MAC`, `COMPLETE` means
  agreement.
-/

set_option autoImplicit false

namespace EspNowEdhoc

open Runs Script

variable {L : Lakers}

/-! ## How a board completes -/

section Complete

variable {cfg : Config} {env : Env L} {d : Device L} {msg : EdhocTransportMsg}

/-- The message is the valid KEY_TEST or KEY_TEST_ACK that the state waits for. -/
def Confirming (role : Role) (state : PairingState) (msg : EdhocTransportMsg) : Prop :=
  msg.sessionId = edhocSessionId ∧ verifyControlPayload msg = true ∧
    ∃ t ∈ awaited role state, t.isControl = true ∧ msg.type = t.code

instance (role : Role) (state : PairingState) (msg : EdhocTransportMsg) :
    Decidable (Confirming role state msg) := by
  unfold Confirming
  infer_instance

theorem exchange_state_ne {x : Handshake} {input : List UInt8} {ret : FfiRet L}
    {accepted : List (Event L)} (t : MsgType) (seq : UInt16) (payload : Option (List UInt8))
    (len : ℕ) {onFail next : Device L → Device L} (hs : d.state ≠ .complete)
    (hfail : ∀ d, (onFail d).state ≠ .complete)
    (hnext : ∀ d', d'.state = d.state → (next d').state ≠ .complete) :
    (exchange x input ret accepted onFail (transmit cfg env t seq payload len) next d).state ≠
      .complete :=
  exchange_control (P := fun d' => d'.state ≠ .complete) t seq payload len (fun _ _ => hfail _)
    (fun _ hc h => hs (hc.state.symm.trans h)) fun d' hc => hnext d' hc.state

theorem startCheck_state_ne (hs : d.state ≠ .complete) (tick : UInt32) :
    (startCheck cfg env d tick).state ≠ .complete := by
  unfold startCheck
  split
  · exact exchange_state_ne .m1 1 _ _ hs (fun _ => nofun) fun _ _ => nofun
  · exact hs

theorem afterDelay_state_ne (hs : d.state ≠ .complete) :
    (afterDelay cfg env d).state ≠ .complete := by
  cases hpc : d.pc with
  | keyTestDelay seq =>
    rw [(afterDelay_keyTestDelay cfg env hpc).1]
    exact hs
  | switchDelay =>
    unfold afterDelay
    rw [hpc]
    dsimp only
    split <;> nofun
  | loop | halted =>
    unfold afterDelay
    rw [hpc]
    exact hs

/-- **Only a valid control message takes a board into `COMPLETE`.** -/
theorem complete_handle (hs : d.state ≠ .complete)
    (h : (handleReceivedMessage cfg env msg d).state = .complete) :
    Confirming cfg.role d.state msg := by
  cases handled cfg env msg d with
  | rejected _ hd => rw [hd] at h; cases h
  | ignored _ _ hd => rw [hd] at h; exact absurd h hs
  | accepted t hsid hrole hst htype hd =>
    rw [hd] at h
    have ht : t ∈ awaited cfg.role d.state := awaited_eq_some.mpr ⟨hrole, hst⟩
    cases t with
    | m1 => exact absurd h (exchange_state_ne .m2 _ _ _ hs (fun _ => nofun) fun _ _ => nofun)
    | m2 => exact absurd h (exchange_state_ne .m3 _ _ _ hs (fun _ => nofun) fun _ _ => nofun)
    | m3 =>
      exact absurd h (exchange_state_ne .ack (msg.seq + 1) (some edhocHandshakeAckPayload)
        (edhocHandshakeAckPayload.length - 1) hs (fun _ => nofun)
        fun _ hd h' => hs (hd.symm.trans h'))
    | ack =>
      dsimp only [onAwaited, onHandshakeAck] at h
      split at h
      · cases h
      split at h <;> cases h
    | keyTest =>
      dsimp only [onAwaited, onKeyTest] at h
      split at h
      · cases h
      · next hpay => exact ⟨hsid, Bool.eq_true_of_not_eq_false hpay, .keyTest, ht, rfl, htype⟩
    | keyTestAck =>
      dsimp only [onAwaited, onKeyTestAck] at h
      split at h
      · cases h
      · next hpay => exact ⟨hsid, Bool.eq_true_of_not_eq_false hpay, .keyTestAck, ht, rfl, htype⟩

end Complete

/-! ## Agreement and its proofs -/

/-- A KEY_TEST or a KEY_TEST_ACK. -/
def RxPacket.IsControl (rx : RxPacket) : Prop :=
  ∃ t : MsgType, t.isControl = true ∧ rx.type = t.code

/-- Both boards have the same LMK installed. -/
def Pair.Agreed (s : Pair L) : Prop := ∃ lmk, ∀ x, (s x).dev.lmk? (s x).cfg = some lmk

/-- The control packets queued from the peer, and `COMPLETE`, are proofs of agreement. -/
structure Confirms (s : Pair L) : Prop where
  queued : ∀ x, ∀ rx ∈ (s x).rxQueue.items, rx.IsControl → rx.srcMac = (s x).cfg.peerMac → s.Agreed
  complete : ∀ x, (s x).dev.state = .complete → s.Agreed

/-- A board that polls a confirmation polls it from its peer. -/
def FromPeer (s : Pair L) : Act L → Prop
  | .poll x _ =>
    match (espnowTransportRecv (s x).rxQueue).bind fun p => parsedMsg p.1 with
    | none => True
    | some msg => (s x).dev.pc = .loop → Confirming (s x).cfg.role (s x).dev.state msg →
      msg.srcMac = (s x).cfg.peerMac
  | _ => True

instance (s : Pair L) : ∀ act : Act L, Decidable (FromPeer s act)
  | .poll x _ =>
    match h : (espnowTransportRecv (s x).rxQueue).bind fun p => parsedMsg p.1 with
    | none => .isTrue (by simp only [FromPeer, h])
    | some msg =>
      decidable_of_iff ((s x).dev.pc = .loop →
        Confirming (s x).cfg.role (s x).dev.state msg → msg.srcMac = (s x).cfg.peerMac)
        (by simp only [FromPeer, h])
  | .startCheck .. | .delayOver .. | .deliver .. | .inject .. => .isTrue trivial

section Steps

variable {s s' s₀ : Pair L}

theorem Pair.Agreed.mono (h : s.Agreed) (hg : PairGrows s s') : s'.Agreed := by
  obtain ⟨lmk, hlmk⟩ := h
  exact ⟨lmk, fun x => by rw [(hg x).1]; exact (hg x).2.lmk lmk (hlmk x)⟩

theorem Side.eq_or_other (x y : Side) : y = x ∨ y = x.other := by
  cases x <;> cases y <;> simp [Side.other]

theorem agreed_of_arrival (hinv : PairInv s) {x : Side} {n : ℕ} {f : SentFrame}
    (hf : (s x.other).dev.sentFrames[n]? = some f) (hdel : EncryptedDelivery s (.deliver x n))
    {t : MsgType} (ht : t.isControl = true) (htype : frameType f.data = t.code) :
    s.Agreed ∧ (s x.other).cfg.ownMac = (s x).cfg.peerMac := by
  obtain ⟨ev, hev, heq⟩ := List.mem_filterMap.mp (List.mem_of_getElem? hf)
  cases ev with
  | sent f' =>
    cases heq
    obtain ⟨-, -, hkey, t', htype', hctl⟩ := (hinv x.other).at_ahead.fits _ hev
    rw [htype, MsgType.code_inj] at htype'
    rw [← htype', ht] at hctl
    obtain ⟨lmk, hlmk⟩ := Option.isSome_iff_exists.mp hctl
    simp only [EncryptedDelivery, hf] at hdel
    rw [hlmk] at hkey hdel
    have hentry := hdel rfl
    obtain ⟨e, hpeers⟩ := (hinv x).at_ahead.peers
    have hmac : (s x.other).cfg.ownMac = (s x).cfg.peerMac := by
      by_contra hne
      rw [Device.entry, hpeers, Function.update_of_ne hne] at hentry
      cases hentry
    rw [hmac] at hentry
    refine ⟨⟨lmk, fun y => ?_⟩, hmac⟩
    rcases x.eq_or_other y with rfl | rfl
    · exact hentry
    · exact hkey rfl
  | handshake | exportLmk | accepted | installed => cases heq

theorem complete_poll (h : Confirms s) {x : Side} {env : Env L} (hpoll : FromPeer s (.poll x env))
    (hc : (s.boardAfter (.poll x env)).dev.state = .complete) :
    (s x).dev.state = .complete ∨ s.Agreed := by
  by_cases hs : (s x).dev.state = .complete
  · exact .inl hs
  simp only [Pair.boardAfter] at hc
  cases polled (s x) env with
  | idle hb => rw [hb] at hc; exact .inl hc
  | rejected rx queue _ _ _ hb => rw [hb] at hc; exact .inl hc
  | handled rx queue msg hpc hpop hmsg hb =>
    rw [hb] at hc
    have hconf := complete_handle hs hc
    have hsrc : msg.srcMac = (s x).cfg.peerMac := by
      simp only [FromPeer, espnowTransportRecv, hpop, Option.bind_some, hmsg] at hpoll
      exact hpoll hpc hconf
    obtain ⟨-, -, t, -, ht, htype⟩ := hconf
    refine .inr (h.queued x rx (BoundedQueue.head_mem_of_pop hpop) ⟨t, ht, ?_⟩ ?_)
    · rw [← type_of_parsedMsg hmsg, htype]
    · rw [← (parsedMsg_eq_some hmsg).1, hsrc]

/-- **One act keeps the proofs of agreement**, if the driver delivers what it should, nothing is
injected under the peer's MAC, and confirmations are polled from the peer. -/
theorem confirms_step (hinv : PairInv s) (h : Confirms s) (act : Act L)
    (hdel : EncryptedDelivery s act)
    (hinj : ∀ x src data, act = .inject x src data → src ≠ (s x).cfg.peerMac)
    (hpoll : FromPeer s act) : Confirms (s.step act) := by
  have hg := (pair_step hinv act).2
  -- a board that was complete, or that had the packet queued
  have hold (x : Side) {b : Board L} (hstate : b.dev.state = .complete →
        (s x).dev.state = .complete ∨ s.Agreed)
      (hqueue : ∀ rx ∈ b.rxQueue.items, rx ∈ (s x).rxQueue.items ∨
        (rx.IsControl → rx.srcMac = (s x).cfg.peerMac → s.Agreed)) :
      (b.dev.state = .complete → s.Agreed) ∧
        ∀ rx ∈ b.rxQueue.items, rx.IsControl → rx.srcMac = (s x).cfg.peerMac → s.Agreed :=
    ⟨fun hc => (hstate hc).elim (h.complete x) id,
      fun rx hrx => (hqueue rx hrx).elim (h.queued x rx) id⟩
  have hboth (x : Side) : ((s.step act x).dev.state = .complete → s.Agreed) ∧
      ∀ rx ∈ (s.step act x).rxQueue.items, rx.IsControl → rx.srcMac = (s x).cfg.peerMac →
        s.Agreed := by
    by_cases hx : x = act.side
    · subst hx
      rw [Pair.step_self]
      cases act with
      | startCheck x tick env =>
        refine hold x (fun hc => .inl ?_) fun rx hrx => .inl hrx
        by_contra hs
        simp only [Pair.boardAfter, Board.take, Device.step] at hc
        split at hc
        · exact startCheck_state_ne hs tick hc
        · exact hs hc
      | delayOver x env =>
        refine hold x (fun hc => .inl ?_) fun rx hrx => .inl hrx
        by_contra hs
        exact afterDelay_state_ne hs hc
      | poll x env =>
        exact hold x (complete_poll h hpoll) fun rx hrx => .inl (mem_poll hrx)
      | deliver x n =>
        simp only [Pair.boardAfter]
        split
        · exact hold x .inl fun rx hrx => .inl hrx
        · next f hf =>
          refine hold x .inl fun rx hrx => (mem_arrive hrx).imp_right ?_
          rintro rfl ⟨t, ht, htype⟩ -
          rw [type_rxPacket] at htype
          exact (agreed_of_arrival hinv hf hdel ht htype).1
      | inject x src data =>
        refine hold x .inl fun rx hrx => (mem_arrive hrx).imp_right ?_
        rintro rfl - hsrc
        exact absurd hsrc (hinj x src data rfl)
    · rw [Pair.step_of_ne s act hx]
      exact hold x .inl fun rx hrx => .inl hrx
  exact
    { queued := fun x rx hrx hctl hsrc =>
        ((hboth x).2 rx hrx hctl (by rw [← (hg x).1]; exact hsrc)).mono hg
      complete := fun x hc => ((hboth x).1 hc).mono hg }

theorem confirms_booted (hboot : ∀ x, (s₀ x).Booted) : Confirms s₀ where
  queued := fun x rx hrx => by
    rw [(hboot x).1] at hrx
    cases hrx
  complete := fun x hc => by
    obtain ⟨-, env, created, bootTick, hdev⟩ := hboot x
    rw [(appMain_eq_some hdev).1] at hc
    cases hrole : (s₀ x).cfg.role <;> rw [hrole] at hc <;> cases hc

end Steps

/-! ## The boards' own frames -/

/-- Only frames of the two boards arrive, as the driver promises. -/
def OwnFrames (s : Pair L) : Act L → Prop
  | .inject .. => False
  | act => EncryptedDelivery s act

instance (s : Pair L) : ∀ act : Act L, Decidable (OwnFrames s act)
  | .inject .. => .isFalse id
  | .startCheck .. | .poll .. | .delayOver .. => .isTrue trivial
  | .deliver x n => inferInstanceAs (Decidable (EncryptedDelivery s (.deliver x n)))

/-- Every queued control packet comes from the peer. -/
def PeerQueued (s : Pair L) : Prop :=
  ∀ x, ∀ rx ∈ (s x).rxQueue.items, rx.IsControl → rx.srcMac = (s x).cfg.peerMac

section OwnFrames

variable {s s₀ : Pair L}

theorem OwnFrames.encryptedDelivery {act : Act L} (h : OwnFrames s act) :
    EncryptedDelivery s act := by
  cases act with
  | inject => exact h.elim
  | startCheck | poll | delayOver | deliver => exact h

theorem PeerQueued.fromPeer (h : PeerQueued s) (act : Act L) : FromPeer s act := by
  cases act with
  | poll x env =>
    simp only [FromPeer]
    split
    · trivial
    · next msg hmsg =>
      rintro - ⟨-, -, t, -, ht, htype⟩
      obtain ⟨⟨rx, queue⟩, hpop, hparse⟩ := Option.bind_eq_some_iff.mp hmsg
      rw [(parsedMsg_eq_some hparse).1]
      exact h x rx (BoundedQueue.head_mem_of_pop hpop)
        ⟨t, ht, by rw [← type_of_parsedMsg hparse, htype]⟩
  | startCheck | delayOver | deliver | inject => trivial

theorem peerQueued_step (hinv : PairInv s) (h : PeerQueued s) (act : Act L)
    (hown : OwnFrames s act) : PeerQueued (s.step act) := by
  intro x rx hrx hctl
  rw [((pair_step hinv act).2 x).1]
  by_cases hx : x = act.side
  · subst hx
    rw [Pair.step_self] at hrx
    cases act with
    | startCheck x tick env => exact h x rx hrx hctl
    | delayOver x env => exact h x rx hrx hctl
    | poll x env => exact h x rx (mem_poll hrx) hctl
    | deliver x n =>
      simp only [Pair.boardAfter] at hrx
      split at hrx
      · exact h x rx hrx hctl
      · next f hf =>
        rcases mem_arrive hrx with hold | rfl
        · exact h x rx hold hctl
        · obtain ⟨t, ht, htype⟩ := hctl
          rw [type_rxPacket] at htype
          exact (agreed_of_arrival hinv hf hown.encryptedDelivery ht htype).2
    | inject => exact hown.elim
  · rw [Pair.step_of_ne s act hx] at hrx
    exact h x rx hrx hctl

theorem confirms_ownFrames (hboot : ∀ x, (s₀ x).Booted) {acts : List (Act L)}
    (hown : Allowed Pair.step OwnFrames s₀ acts) : Confirms (run Pair.step s₀ acts) := by
  have hall := run_inv (I := fun s => PairInv s ∧ Confirms s ∧ PeerQueued s)
    ⟨fun x => inv_booted (hboot x), confirms_booted hboot, fun x rx hrx => by
      rw [(hboot x).1] at hrx; cases hrx⟩
    (fun s act ⟨hinv, hconf, hpeer⟩ hact =>
      ⟨(pair_step hinv act).1,
        confirms_step hinv hconf act hact.encryptedDelivery
          (by rintro x src data rfl; exact hact.elim) (hpeer.fromPeer act),
        peerQueued_step hinv hpeer act hact⟩) hown
  exact hall.2.1

/-- **A wrong key never passes.** For all configurations of the two boards and every schedule of
their own frames: if at the end of a run the two boards do not have the same LMK installed, then at
no point of the run was a board in `COMPLETE`. -/
theorem wrong_key_never_passes (hboot : ∀ x, (s₀ x).Booted) {acts : List (Act L)}
    (hown : Allowed Pair.step OwnFrames s₀ acts)
    (hwrong : ¬ ∃ lmk, ∀ x, (run Pair.step s₀ acts x).dev.lmk? (s₀ x).cfg = some lmk)
    {p : List (Act L)} (hp : p <+: acts) (x : Side) :
    (run Pair.step s₀ p x).dev.state ≠ .complete := by
  obtain ⟨q, rfl⟩ := hp
  intro hc
  have hagreed := (confirms_ownFrames hboot (allowed_append.mp hown).1).complete x hc
  have hg := grows_pair (inv_pair hboot p) q
  obtain ⟨lmk, hlmk⟩ := hagreed.mono hg
  rw [← run_append] at hlmk
  refine hwrong ⟨lmk, fun y => ?_⟩
  have hcfg := (grows_pair (fun x => inv_booted (hboot x)) (p ++ q) y).1
  rw [← hcfg]
  exact hlmk y

end OwnFrames

/-- The sample boards, with the responder's LMK corrupted. -/
def Pair.corrupted : Pair Lakers.sample
  | .a => Pair.sample .a
  | .b => ⟨{ Config.sample .responder with corruptLmk := true }, Device.sample .responder, .empty⟩

theorem booted_corrupted (x : Side) : (Pair.corrupted x).Booted := by
  cases x
  · exact booted_sample .a
  · exact ⟨rfl, _, _, _, appMain_sample .responder⟩

/-- The driver drops the encrypted KEY_TEST, so both boards wait for ever. -/
theorem wrong_key_never_passes_sample :
    (run Pair.step Pair.corrupted (sampleActs.take 11) .a).dev.state ≠ .complete :=
  wrong_key_never_passes booted_corrupted (by decide)
    (fun ⟨lmk, h⟩ => absurd ((h .a).trans (h .b).symm) (by decide)) List.prefix_rfl .a

/-! ## A third station -/

/-- Frames of a third station arrive under its own MAC; those of the boards as the driver
promises. -/
def OwnMacs (s : Pair L) : Act L → Prop
  | .inject x src _ => src ≠ (s x).cfg.ownMac ∧ src ≠ (s x.other).cfg.ownMac
  | act => EncryptedDelivery s act

instance (s : Pair L) : ∀ act : Act L, Decidable (OwnMacs s act)
  | .inject x src _ =>
    inferInstanceAs (Decidable (src ≠ (s x).cfg.ownMac ∧ src ≠ (s x.other).cfg.ownMac))
  | .startCheck .. | .poll .. | .delayOver .. => .isTrue trivial
  | .deliver x n => inferInstanceAs (Decidable (EncryptedDelivery s (.deliver x n)))

/-- The frames of the third station in `forgedActs`. -/
def forge (type : MsgType) (payload : List UInt8) : Act Lakers.sample :=
  .inject .a strangerMac (frameBytes type.code edhocSessionId 0 payload)

/-- message_3 is lost; a third station sends the ACK and the KEY_TEST_ACK. -/
def forgedActs : List (Act Lakers.sample) :=
  [.startCheck .a 2000 .sample, .deliver .b 0, .poll .b .sample, .deliver .a 0, .poll .a .sample,
    forge .ack edhocHandshakeAckPayload.dropLast, .poll .a .sample, .delayOver .a .sample,
    forge .keyTestAck keyTestAckPayload.dropLast, .poll .a .sample]

theorem authentic_forgedActs :
    AuthenticMessage2 (run Pair.step Pair.sample forgedActs .a).dev
        (run Pair.step Pair.sample forgedActs .b).dev ∧
      AuthenticMessage3 (fun done => done) (run Pair.step Pair.sample forgedActs .a).dev
        (run Pair.step Pair.sample forgedActs .b).dev := by
  refine ⟨fun input ret hev _ => ?_, fun input ret doneR hev _ _ => ?_⟩
  · have ha : (run Pair.step Pair.sample forgedActs .a).dev.trace.filterMap
        (Event.shown? .processMessage2) = [(sampleMessage2, .ok, sampleMessage3, some (7, 9))] := by
      decide
    have hb : (sampleMessage1, .ok, sampleMessage2, none) ∈ (run Pair.step Pair.sample forgedActs
        .b).dev.trace.filterMap (Event.shown? .processMessage1) := by decide
    have hinput := shown_of_mem hev
    rw [ha, List.mem_singleton, Prod.mk.injEq] at hinput
    obtain ⟨ret', he, hok, hmsg, -⟩ := mem_of_shown hb
    exact ⟨sampleMessage1, ret', he, hok, hmsg.trans hinput.1.symm⟩
  · have hb : (run Pair.step Pair.sample forgedActs .b).dev.trace.filterMap
        (Event.shown? .processMessage3) = [] := by decide
    have hmem := shown_of_mem hev
    rw [hb] at hmem
    cases hmem

/-- **A third station completes the initiator.** It has never seen an encrypted frame, and Lakers
has accepted honest messages only; the responder still waits for message_3 and has no key. -/
theorem forged_confirmation :
    let s := run Pair.step Pair.sample forgedActs
    (∀ x, (Pair.sample x).Booted) ∧ Mutual (Pair.sample .a).cfg (Pair.sample .b).cfg ∧
      Allowed Pair.step OwnMacs Pair.sample forgedActs ∧
      (AuthenticMessage2 (s .a).dev (s .b).dev ∧
        AuthenticMessage3 (fun done => done) (s .a).dev (s .b).dev) ∧
      (s .a).dev.state = .complete ∧ (s .b).dev.state = .waitM3 ∧
      .accepted .m3 ∉ (s .b).dev.milestones ∧
      (s .b).dev.lmk? (Config.sample .responder) = none := by
  refine ⟨booted_sample, by decide, by decide, authentic_forgedActs, ?_⟩
  decide

/-- **Key confirmation.** Two boards are configured for each other and boot once, and a third
station injects unencrypted frames under its own MAC. In every run in which the confirmations that
the boards handle come from their `PEER_MAC`: if the initiator is in `COMPLETE`, then the responder
has accepted message_3 and has the same LMK installed; if the responder is in `COMPLETE`, then the
initiator has the same LMK installed. -/
theorem key_confirmation {s₀ : Pair L} (hboot : ∀ x, (s₀ x).Booted)
    (hmut : Mutual (s₀ .a).cfg (s₀ .b).cfg) {acts : List (Act L)}
    (hmacs : Allowed Pair.step OwnMacs s₀ acts) (hpeer : Allowed Pair.step FromPeer s₀ acts) :
    let s := run Pair.step s₀ acts
    ((s .a).dev.state = .complete → .accepted .m3 ∈ (s .b).dev.milestones ∧
      ∃ lmk, (s .a).dev.lmk? (s₀ .a).cfg = some lmk ∧ (s .b).dev.lmk? (s₀ .b).cfg = some lmk) ∧
    ((s .b).dev.state = .complete →
      ∃ lmk, (s .a).dev.lmk? (s₀ .a).cfg = some lmk ∧ (s .b).dev.lmk? (s₀ .b).cfg = some lmk) := by
  have hinv := inv_pair hboot acts
  have hcfg (x : Side) := (grows_pair (fun x => inv_booted (hboot x)) acts x).1
  have hconf : Confirms (run Pair.step s₀ acts) := by
    have hall := run_inv (G := fun s act => OwnMacs s act ∧ FromPeer s act)
      (I := fun s => PairInv s ∧ Confirms s ∧ ∀ x, (s x).cfg = (s₀ x).cfg)
      ⟨fun x => inv_booted (hboot x), confirms_booted hboot, fun _ => rfl⟩
      (fun s act ⟨hinv, hconf, hcfg⟩ hact => ?_) (hmacs.and hpeer)
    · exact hall.2.1
    · have hnext := pair_step hinv act
      refine ⟨hnext.1, ?_, fun x => (hnext.2 x).1.trans (hcfg x)⟩
      refine confirms_step hinv hconf act ?_ ?_ hact.2
      · cases act with
        | inject => trivial
        | startCheck | poll | delayOver | deliver => exact hact.1
      · rintro x src data rfl
        have hpeerMac : (s x).cfg.peerMac = (s x.other).cfg.ownMac := by
          rw [hcfg, hcfg]
          cases x
          · exact hmut.peer.1
          · exact hmut.peer.2
        rw [hpeerMac]
        exact hact.1.2
  have hagreed (x : Side) (hc : (run Pair.step s₀ acts x).dev.state = .complete) :
      ∃ lmk, (run Pair.step s₀ acts .a).dev.lmk? (s₀ .a).cfg = some lmk ∧
        (run Pair.step s₀ acts .b).dev.lmk? (s₀ .b).cfg = some lmk := by
    obtain ⟨lmk, hlmk⟩ := hconf.complete x hc
    exact ⟨lmk, by rw [← hcfg]; exact hlmk .a, by rw [← hcfg]; exact hlmk .b⟩
  refine ⟨fun hc => ⟨?_, hagreed .a hc⟩, hagreed .b⟩
  obtain ⟨lmk, -, hlmk⟩ := hagreed .a hc
  refine (before_installed (hinv .b) (by rw [hcfg, hlmk]; rfl)).subset ?_
  rw [hcfg, hmut.responder]
  decide

theorem key_confirmation_sample :
    .accepted .m3 ∈ (run Pair.step Pair.sample sampleActs .b).dev.milestones :=
  ((key_confirmation booted_sample (by decide) (by decide) (by decide)).1 (by decide)).1

end EspNowEdhoc
