import EspNowEdhoc.Device.Frames
import EspNowEdhoc.Device.Position
import EspNowEdhoc.Pair.Causality

/-!
# What copies of frames cannot do

The air is that of `OnlyCopies`: it loses, duplicates, reorders and reflects the frames of the
boards under any source address.

* `Clean`: what has been sent, queued and accepted is numbered by its type, and a failure is to
  blame on a board's own calls; `clean_run`.
* **`copies_never_fail`**: no frame that arrives fails a pairing.
* **`frames_numbered`**: the frames of a pairing are numbered from 1 to 6.
* **`completion_agreement`**: what the completion of one board says about the other.
-/

set_option autoImplicit false

namespace EspNowEdhoc

open Runs Script

variable {L : Lakers}

/-! ## Acts as steps of the task -/

def Act.env? : Act L → Option (Env L)
  | .startCheck _ _ env | .poll _ env | .delayOver _ env => some env
  | .deliver .. | .inject .. => none

/-- What an act does to the device of its board. -/
inductive Acted (s : Pair L) (act : Act L) : Prop
  | quiet (hdev : (s.boardAfter act).dev = (s act.side).dev)
  | step (t : TaskStep L)
      (hdev : (s.boardAfter act).dev = (s act.side).dev.step (s act.side).cfg t)
      (henv : act.env? = some t.env)
      (hrecv : ∀ msg ∈ receivedMsgs [t], ∃ rx ∈ (s act.side).rxQueue.items,
        parsedMsg rx = some msg)

section Acts

variable {s : Pair L}

theorem acted (s : Pair L) (act : Act L) : Acted s act := by
  cases act with
  | startCheck x tick env =>
    exact .step (.input (.startCheck tick env)) rfl rfl fun _ h => absurd h List.not_mem_nil
  | delayOver x env => exact .step (.delayOver env) rfl rfl fun _ h => absurd h List.not_mem_nil
  | inject x src data => exact .quiet rfl
  | deliver x n =>
    refine .quiet ?_
    simp only [Pair.boardAfter]
    split
    · rfl
    · rfl
  | poll x env =>
    cases polled (s x) env with
    | idle hb => exact .quiet (congrArg Board.dev hb :)
    | rejected rx queue _ _ _ hb => exact .quiet (congrArg Board.dev hb :)
    | handled rx queue msg hpc hpop hmsg hb =>
      refine .step (.input (.received msg env)) ?_ rfl fun msg' hin => ?_
      · exact (congrArg Board.dev hb).trans (if_pos hpc).symm
      · rw [List.mem_singleton.mp hin]
        exact ⟨rx, BoundedQueue.head_mem_of_pop hpop, hmsg⟩

/-- What is preserved by the steps of the task is preserved by every act. -/
theorem dev_step {P : Side → Device L → Prop} (h : ∀ x, P x (s x).dev) (act : Act L)
    (hstep : ∀ t : TaskStep L, act.env? = some t.env →
      (s.step act act.side).dev = (s act.side).dev.step (s act.side).cfg t →
      (∀ msg ∈ receivedMsgs [t], ∃ rx ∈ (s act.side).rxQueue.items, parsedMsg rx = some msg) →
      P act.side ((s act.side).dev.step (s act.side).cfg t)) (x : Side) :
    P x (s.step act x).dev := by
  by_cases hx : x = act.side
  · subst hx
    rw [Pair.step_self]
    cases acted s act with
    | quiet hdev => rw [hdev]; exact h _
    | step t hdev henv hrecv => rw [hdev]; exact hstep t henv (by rw [Pair.step_self, hdev]) hrecv
  · rw [Pair.step_of_ne s act hx]
    exact h x

end Acts

/-! ## Numbers -/

def MsgType.number : MsgType → UInt16
  | .m1 => 1
  | .m2 => 2
  | .m3 => 3
  | .ack => 4
  | .keyTest => 5
  | .keyTestAck => 6

def ByType (t : MsgType) (seq : UInt16) : Prop := seq = t.number

theorem numbering_byType : Numbering ByType where
  first := rfl
  reply {t t' seq} h hseq := by
    rw [ByType] at hseq ⊢
    rw [hseq]
    cases t <;> cases h <;> rfl

/-! ## Boards that are done with sending -/

section Device

variable {cfg : Config} {d : Device L} {t : TaskStep L}

theorem ne_failed_of_mem_path {role : Role} {s : PairingState} (h : s ∈ path role) :
    s ≠ .failed := by
  rintro rfl
  cases role <;> exact absurd h (by decide)

theorem onPath_step (h : Inv cfg d) (hpath : d.state ∈ path cfg.role ∨ d.state = .failed)
    (t : TaskStep L) :
    (d.step cfg t).state ∈ path cfg.role ∨ (d.step cfg t).state = .failed := by
  cases stepped h t with
  | same hd => rw [hd]; exact hpath
  | failed hstate _ _ _ => exact .inr hstate
  | halted hstate _ => rw [hstate]; exact hpath
  | moved hmove => exact .inl (move_mem hmove).1

theorem length_sentFrames_ahead (h : Inv cfg d) {r : List Milestone}
    (hr : ahead cfg.role d.pc d.state d.initiatorStarted = some r) :
    d.sentFrames.length + (r.filterMap Milestone.sent?).length = 3 := by
  have hsent := congrArg List.length (map_frameType_sentFrames h.at_ahead)
  rw [List.length_map, List.length_map] at hsent
  have hscript : d.milestones ++ r = completionScript cfg.role := by
    have hf := h.at_ahead.follows
    rw [hr] at hf
    exact hf
  rw [hsent, ← List.length_append, ← List.filterMap_append, hscript]
  cases cfg.role <;> rfl

/-- A board that has sent its three frames waits in its loop, if it has neither failed nor
halted. -/
theorem waits_of_all_sent (h : Inv cfg d) (hpath : d.state ∈ path cfg.role)
    (hall : d.sentFrames.length = 3) (hpc : d.pc ≠ .halted) :
    d.pc = .loop ∧
      (d.state = .complete ∨ cfg.role = .initiator ∧ d.state = .waitKeyTestAck) := by
  have hno {r : List Milestone} (hr : ahead cfg.role d.pc d.state d.initiatorStarted = some r)
      (hlen : 0 < (r.filterMap Milestone.sent?).length) : False := by
    have hahead := length_sentFrames_ahead h hr
    omega
  have hst (hrole : cfg.role = .initiator) (hi : d.state ≠ .idle) (hf : d.state ≠ .failed) :
      d.initiatorStarted = true := h.started hrole hi hf
  cases hpc' : d.pc with
  | halted => exact absurd hpc' hpc
  | switchDelay =>
    obtain ⟨hrole, hs⟩ := h.switchDelay hpc'
    refine (hno (r := (completionScript .responder).drop 6) ?_ (by decide)).elim
    rw [hrole, hpc', hs]
    rfl
  | keyTestDelay seq =>
    obtain ⟨hrole, hs⟩ := h.keyTestDelay seq hpc'
    refine (hno (r := (completionScript .initiator).drop 8) ?_ (by decide)).elim
    rw [hrole, hpc', hs, hst hrole (by rw [hs]; decide) (by rw [hs]; decide)]
    rfl
  | loop =>
    refine ⟨rfl, ?_⟩
    cases hrole : cfg.role with
    | initiator =>
      rw [hrole] at hpath hno
      simp only [path, List.mem_cons, List.not_mem_nil, or_false] at hpath
      rcases hpath with hs | hs | hs | hs | hs
      · refine (hno (r := completionScript .initiator) ?_ (by decide)).elim
        rw [hpc', hs]
        rfl
      · refine (hno (r := (completionScript .initiator).drop 2) ?_ (by decide)).elim
        rw [hpc', hs, hst hrole (by rw [hs]; decide) (by rw [hs]; decide)]
        rfl
      · refine (hno (r := (completionScript .initiator).drop 5) ?_ (by decide)).elim
        rw [hpc', hs, hst hrole (by rw [hs]; decide) (by rw [hs]; decide)]
        rfl
      · exact .inr ⟨rfl, hs⟩
      · exact .inl hs
    | responder =>
      rw [hrole] at hpath hno
      simp only [path, List.mem_cons, List.not_mem_nil, or_false] at hpath
      rcases hpath with hs | hs | hs | hs
      · refine (hno (r := completionScript .responder) ?_ (by decide)).elim
        rw [hpc', hs]
        rfl
      · refine (hno (r := (completionScript .responder).drop 3) ?_ (by decide)).elim
        rw [hpc', hs]
        rfl
      · refine (hno (r := (completionScript .responder).drop 8) ?_ (by decide)).elim
        rw [hpc', hs]
        rfl
      · exact .inl hs

theorem step_of_halted (hpc : d.pc = .halted) (t : TaskStep L) : d.step cfg t = d := by
  have hne : d.pc ≠ .loop := by rw [hpc]; decide
  cases t with
  | delayOver env => simp only [Device.step, afterDelay, hpc]
  | input i =>
    cases i with
    | startCheck tick env => exact if_neg hne
    | received msg env => exact if_neg hne

/-- **A board that has sent its three frames** is not failed by a message of the session. -/
theorem step_of_all_sent {N : MsgType → UInt16 → Prop} (h : Inv cfg d)
    (hpath : d.state ∈ path cfg.role) (hall : d.sentFrames.length = 3)
    (hrecv : ∀ msg ∈ receivedMsgs [t], msg.OfSession N) : (d.step cfg t).state ≠ .failed := by
  have hs := ne_failed_of_mem_path hpath
  by_cases hpc : d.pc = .halted
  · rwa [step_of_halted hpc]
  obtain ⟨hloop, hwait⟩ := waits_of_all_sent h hpath hall hpc
  cases t with
  | delayOver env => simpa only [Device.step, afterDelay, hloop] using hs
  | input i =>
    cases i with
    | startCheck tick env =>
      have hdue : ¬ StartDue cfg d tick := fun hdue => by
        have hst := h.started hdue.1 (by rcases hwait with hw | ⟨-, hw⟩ <;> rw [hw] <;> decide) hs
        rw [hdue.2.1] at hst
        cases hst
      simp only [Device.step, if_pos hloop, startCheck_of_not_due hdue]
      exact hs
    | received msg env =>
      have hmsg := hrecv msg (List.mem_singleton_self msg)
      simp only [Device.step, if_pos hloop]
      cases handled cfg env msg d with
      | rejected hsid _ => exact absurd hmsg.session hsid
      | ignored _ _ hd => rwa [hd]
      | accepted t _ hrole hst htype hd =>
        rw [hd]
        rcases hwait with hw | ⟨-, hw⟩ <;> rw [hw] at hst <;> cases t <;> cases hst
        -- the KEY_TEST_ACK holds its text
        have hverify : verifyControlPayload msg = true := by
          rw [verifyControlPayload, htype, if_neg (by decide), if_pos rfl]
          exact hmsg.text .keyTestAck _ htype rfl
        dsimp only [onAwaited, onKeyTestAck]
        rw [if_neg (by rw [hverify]; decide)]
        exact PairingState.noConfusion

theorem length_sentFrames_complete (h : Inv cfg d) (hc : d.state = .complete) :
    d.sentFrames.length = 3 := by
  have hsent := congrArg List.length (map_frameType_sentFrames h.at_ahead)
  rw [List.length_map, milestones_complete h hc, List.length_map] at hsent
  rw [hsent]
  cases cfg.role <;> rfl

theorem ne_complete_of_move {role : Role} {s s' : PairingState} {pc pc' : Pc}
    (h : Move role s pc s' pc') : s ≠ .complete := by
  cases h with
  | start hs => rcases hs with rfl | rfl <;> decide
  | message2 | message1 | message3 | switched | keyTest | keyTestAck => decide
  | ack seq => decide
  | keyTestSent seq => decide

theorem step_of_complete {N : MsgType → UInt16 → Prop} (h : Inv cfg d) (hc : d.state = .complete)
    (hrecv : ∀ msg ∈ receivedMsgs [t], msg.OfSession N) : (d.step cfg t).state = .complete := by
  have hpath : d.state ∈ path cfg.role := by
    rw [hc]
    cases cfg.role <;> decide
  cases stepped h t with
  | same hd => rw [hd, hc]
  | failed hstate _ _ _ =>
    exact absurd hstate (step_of_all_sent h hpath (length_sentFrames_complete h hc) hrecv)
  | halted hstate _ => rw [hstate, hc]
  | moved hmove => exact absurd hc (ne_complete_of_move hmove)

/-- **A board that has failed** sends message_1 at most. -/
theorem length_sentFrames_of_failed (h : Inv cfg d) (hs : d.state = .failed)
    (hlt : d.sentFrames.length < 3) (t : TaskStep L) : (d.step cfg t).sentFrames.length < 3 := by
  cases t with
  | delayOver env =>
    have hd : d.step cfg (.delayOver env) = d := by
      simp only [Device.step, afterDelay]
      split
      · next hpc => rw [(h.switchDelay hpc).2] at hs; cases hs
      · next seq hpc => rw [(h.keyTestDelay seq hpc).2] at hs; cases hs
      · rfl
      · rfl
    rwa [hd]
  | input i =>
    cases i with
    | received msg env =>
      simp only [Device.step]
      split
      · cases handled cfg env msg d with
        | rejected _ hd => rw [hd]; exact hlt
        | ignored _ _ hd => rwa [hd]
        | accepted t _ _ hst _ _ => rw [hs] at hst; cases t <;> cases hst
      · exact hlt
    | startCheck tick env =>
      by_cases hpc : d.pc = .loop
      · by_cases hdue : StartDue cfg d tick
        · -- nothing has been accepted before the start
          have hacc : d.acceptedMsgs.length = 0 := by
            have hf := h.at_ahead.follows
            rw [hdue.1, hpc, hs, hdue.2.1] at hf
            have hmap := congrArg List.length (map_type_acceptedMsgs h.at_ahead)
            have hnil : d.milestones = [] := List.append_left_eq_self.mp hf
            rwa [hnil, List.length_map] at hmap
          obtain ⟨l, heq, hl⟩ := accepts_step cfg (d := d) (.input (.startCheck tick env))
          have hlen := congrArg List.length heq
          rw [List.length_append, hacc, List.sublist_nil.mp hl, List.length_nil] at hlen
          have hturn := ((turns (next_step h (.input (.startCheck tick env))).inv).1 hdue.1).2
          omega
        · simp only [Device.step, if_pos hpc, startCheck_of_not_due hdue]
          exact hlt
      · simp only [Device.step, if_neg hpc]
        exact hlt

end Device

/-! ## The invariant -/

/-- Whom a failure of the board `x` is to blame on: a handshake call that it made was not `OK`, or a
driver call that it made was not `ESP_OK`. -/
inductive Blame (s₀ : Pair L) (acts : List (Act L)) (x : Side) (d : Device L) : Prop
  | call (h : Handshake) (input : List UInt8) (ret : FfiRet L)
      (hcall : .handshake h input ret ∈ d.trace) (hret : ret.status ≠ .ok)
  | driver (before : List (Act L)) (act : Act L) (env : Env L) (hact : before ++ [act] <+: acts)
      (hside : act.side = x) (henv : act.env? = some env)
      (hdriver : DriverFails (run Pair.step s₀ before x).cfg env (run Pair.step s₀ before x).dev
        (run Pair.step s₀ (before ++ [act]) x).dev)

/-- What is sent and queued is numbered by its type, a failure is to blame on the board, and a board
that has sent everything has not failed. -/
structure Clean (s₀ : Pair L) (acts : List (Act L)) (s : Pair L) : Prop where
  reached : s = run Pair.step s₀ acts
  queued : ∀ x, ∀ rx ∈ (s x).rxQueue.items, ∀ msg, parsedMsg rx = some msg → msg.OfSession ByType
  speaks : ∀ x, (s x).dev.Speaks ByType
  onPath : ∀ x, (s x).dev.state ∈ path (s x).cfg.role ∨ (s x).dev.state = .failed
  blame : ∀ x, (s x).dev.state = .failed → Blame s₀ acts x (s x).dev
  unfinished : ∀ x, (s x).dev.state = .failed → (s x).dev.sentFrames.length < 3

section Invariant

variable {s s₀ : Pair L} {acts : List (Act L)} {act : Act L} {x : Side} {d d' : Device L}

theorem Blame.mono (h : Blame s₀ acts x d) (act : Act L) (htrace : d.trace <+: d'.trace) :
    Blame s₀ (acts ++ [act]) x d' := by
  cases h with
  | call h input ret hcall hret => exact .call h input ret (htrace.subset hcall) hret
  | driver before act' env hact hside henv hdriver =>
    exact .driver before act' env (hact.trans (List.prefix_append ..)) hside henv hdriver

theorem blame_step {cfg : Config} (h : Inv cfg d) {t : TaskStep L}
    (hrecv : ∀ msg ∈ receivedMsgs [t], msg.OfSession ByType)
    (hdriver : DriverFails cfg t.env d (d.step cfg t) →
      Blame s₀ (acts ++ [act]) x (d.step cfg t))
    (hold : d.state = .failed → Blame s₀ acts x d) (hs : (d.step cfg t).state = .failed) :
    Blame s₀ (acts ++ [act]) x (d.step cfg t) := by
  have hgrows := (next_step h t).grows.trace
  cases stepped h t with
  | same hd => exact (hold (by rw [← hd]; exact hs)).mono act hgrows
  | halted hstate _ => exact (hold (by rw [← hstate]; exact hs)).mono act hgrows
  | moved hmove => exact absurd hs (ne_failed_of_mem_path (move_mem hmove).1)
  | failed _ _ _ hwhy =>
    cases hwhy with
    | foreign msg hmsg hsid => exact absurd (hrecv msg hmsg).session hsid
    | text msg t' text hmsg htype htext hpay =>
      rw [(hrecv msg hmsg).text t' text htype htext] at hpay
      cases hpay
    | call y input ret hcall hret =>
      have hmem : .handshake y input ret ∈ (d.step cfg t).calls := by
        rw [hcall]
        exact List.mem_concat_self
      exact .call y input ret (List.mem_of_mem_filter hmem) hret
    | driver hfails => exact hdriver hfails

theorem unfinished_step {cfg : Config} (h : Inv cfg d)
    (hpath : d.state ∈ path cfg.role ∨ d.state = .failed) {t : TaskStep L}
    (hrecv : ∀ msg ∈ receivedMsgs [t], msg.OfSession ByType)
    (hold : d.state = .failed → d.sentFrames.length < 3) (hs : (d.step cfg t).state = .failed) :
    (d.step cfg t).sentFrames.length < 3 := by
  rcases hpath with hpath | hfailed
  · have hle := length_sentFrames_le h
    have hne := ne_failed_of_mem_path hpath
    have hsent : (d.step cfg t).sentFrames = d.sentFrames := by
      cases stepped h t with
      | same hd => rw [hd]
      | failed _ _ hsent _ => exact hsent
      | halted hstate _ => exact absurd (hstate.symm.trans hs) hne
      | moved hmove => exact absurd hs (ne_failed_of_mem_path (move_mem hmove).1)
    have hall : d.sentFrames.length ≠ 3 := fun hall => step_of_all_sent h hpath hall hrecv hs
    rw [hsent]
    omega
  · exact length_sentFrames_of_failed h hfailed (hold hfailed) t

theorem clean_step (hinv : PairInv s) (h : Clean s₀ acts s) (hact : OnlyCopies s act) :
    Clean s₀ (acts ++ [act]) (s.step act) := by
  have hrecv {x : Side} {msgs : List EdhocTransportMsg}
      (hin : ∀ msg ∈ msgs, ∃ rx ∈ (s x).rxQueue.items, parsedMsg rx = some msg) :
      ∀ msg ∈ msgs, msg.OfSession ByType := fun msg hmsg =>
    let ⟨rx, hrx, hparse⟩ := hin msg hmsg
    h.queued x rx hrx msg hparse
  have hcfg (x : Side) : (s.step act x).cfg = (s x).cfg := ((pair_step hinv act).2 x).1
  have hgrows (x : Side) : (s x).dev.trace <+: (s.step act x).dev.trace :=
    ((pair_step hinv act).2 x).2.trace
  refine ⟨by rw [run_concat, ← h.reached], fun x rx hrx msg hparse => ?_, ?_, fun x => ?_, ?_, ?_⟩
  · by_cases hx : x = act.side
    · subst hx
      rw [Pair.step_self] at hrx
      rcases queued_boardAfter hact hrx with hin | ⟨f, hf, hp⟩
      · exact h.queued _ rx hin msg hparse
      · obtain ⟨y, hy⟩ := hf.sent
        obtain ⟨msg', hparse', hmsg', -⟩ := ((h.speaks y).sent hy).understood rx.srcMac
        rw [hp, SentFrame.packet, hparse', Option.some.injEq] at hparse
        rwa [← hparse]
    · rw [Pair.step_of_ne s act hx] at hrx
      exact h.queued x rx hrx msg hparse
  · exact dev_step (P := fun _ d => d.Speaks ByType) h.speaks act fun t _ _ hin =>
      (h.speaks _).step numbering_byType _ fun msg hmsg => (hrecv hin msg hmsg).numbered
  · rw [hcfg]
    exact dev_step (P := fun x d => d.state ∈ path (s x).cfg.role ∨ d.state = .failed) h.onPath act
      (fun t _ _ _ => onPath_step (hinv _) (h.onPath _) t) x
  · refine dev_step (P := fun x d => d.state = .failed → Blame s₀ (acts ++ [act]) x d)
      (fun x hs => (h.blame x hs).mono act (List.prefix_refl _)) act fun t henv hdev hin =>
        blame_step (hinv _) (hrecv hin) (fun hdriver => ?_) (h.blame _)
    refine .driver acts act t.env List.prefix_rfl rfl henv ?_
    rw [run_concat, ← h.reached, hdev]
    exact hdriver
  · exact dev_step (P := fun _ d => d.state = .failed → d.sentFrames.length < 3) h.unfinished act
      fun t _ _ hin => unfinished_step (hinv _) (h.onPath _) (hrecv hin) (h.unfinished _)

theorem clean_run (hboot : ∀ x, (s₀ x).Booted) (hair : Allowed Pair.step OnlyCopies s₀ acts) :
    Clean s₀ acts (run Pair.step s₀ acts) := by
  have hstart : Clean s₀ [] s₀ := by
    have hstate (x : Side) : (s₀ x).dev.state ∈ path (s₀ x).cfg.role := by
      obtain ⟨-, env, created, bootTick, hdev⟩ := hboot x
      rw [(appMain_eq_some hdev).1]
      cases (s₀ x).cfg.role <;> decide
    refine ⟨rfl, fun x rx hrx => ?_, fun x => ?_, fun x => .inl (hstate x), fun x hs => ?_,
      fun x hs => ?_⟩
    · rw [(hboot x).1] at hrx
      cases hrx
    · obtain ⟨-, env, created, bootTick, hdev⟩ := hboot x
      exact speaks_appMain hdev
    · exact absurd hs (ne_failed_of_mem_path (hstate x))
    · exact absurd hs (ne_failed_of_mem_path (hstate x))
  exact (run_hist_inv (I := fun acts s => PairInv s ∧ Clean s₀ acts s)
    ⟨fun x => inv_booted (hboot x), hstart⟩
    (fun acts s act h hact => ⟨(pair_step h.1 act).1, clean_step h.1 h.2 hact⟩) hair).2

end Invariant

/-! ## Results -/

section Results

variable {s₀ : Pair L} {acts : List (Act L)}

/-- **Copies never fail a pairing.** Two boards boot, and the air loses, duplicates, reorders and
reflects their frames under any source address. If the pairing of a board has failed at any point
of any run, then one of the handshake calls that it made returned another status than `OK`, or one
of the driver calls that it made another value than `ESP_OK`: no frame that arrived was foreign to
the session or without the text of its type. -/
theorem copies_never_fail (hboot : ∀ x, (s₀ x).Booted)
    (hair : Allowed Pair.step OnlyCopies s₀ acts) (x : Side) :
    let d := (run Pair.step s₀ acts x).dev
    d.state = .failed → Blame s₀ acts x d := (clean_run hboot hair).blame x

/-- The number of the `i`-th frame of a role. -/
def Role.number : Role → ℕ → UInt16
  | .initiator, i => UInt16.ofNat (2 * i + 1)
  | .responder, i => UInt16.ofNat (2 * i + 2)

theorem Role.other_ne (role : Role) : role.other ≠ role := by cases role <;> decide

theorem number_frameScript (role : Role) {i : ℕ} {t : MsgType}
    (h : (frameScript role)[i]? = some t) : t.number = role.number i := by
  have hi := (List.getElem?_eq_some_iff.mp h).1
  have hlen : (frameScript role).length = 3 := by cases role <;> rfl
  have hcases : i = 0 ∨ i = 1 ∨ i = 2 := by omega
  rcases hcases with rfl | rfl | rfl <;> cases role <;> cases h <;> rfl

theorem getElem?_script {α : Type} {key : α → UInt8} {l : List α} {script : List MsgType}
    (h : l.map key <+: script.map MsgType.code) {i : ℕ} {a : α} (ha : l[i]? = some a)
    {t : MsgType} (ht : key a = t.code) : script[i]? = some t := by
  have hi := getElem?_of_isPrefix h (i := i) (by rw [List.getElem?_map, ha, Option.map_some])
  rw [List.getElem?_map, Option.map_eq_some_iff] at hi
  obtain ⟨t', ht', heq⟩ := hi
  rw [ht', MsgType.code_inj.mp (heq.trans ht)]

/-- **The frames of a pairing are numbered.** Under the same air, the `i`-th frame of an initiator
has the sequence number `2 * i + 1`, and the `i`-th frame of a responder `2 * i + 2`; and the
messages that a board accepts have the numbers of the other role. So the six frames of a pairing
have six numbers. -/
theorem frames_numbered (hboot : ∀ x, (s₀ x).Booted)
    (hair : Allowed Pair.step OnlyCopies s₀ acts) (x : Side) (i : ℕ) :
    let b := run Pair.step s₀ acts x
    (∀ f, b.dev.sentFrames[i]? = some f → ∃ (t : MsgType) (payload : List UInt8),
      (frameScript b.cfg.role)[i]? = some t ∧ payload.length ≤ 192 ∧
        f.data = frameBytes t.code edhocSessionId (b.cfg.role.number i) payload) ∧
    ∀ msg, b.dev.acceptedMsgs[i]? = some msg → ∃ t : MsgType,
      (acceptScript b.cfg.role)[i]? = some t ∧ msg.type = t.code ∧
        msg.seq = b.cfg.role.other.number i := by
  intro b
  have hinv := inv_pair hboot acts x
  have hclean := clean_run hboot hair
  refine ⟨fun f hf => ?_, fun msg hmsg => ?_⟩
  · obtain ⟨t, seq, payload, hseq, hlen, -, hdata⟩ :=
      (hclean.speaks x).sent (List.mem_of_getElem? hf)
    have ht := getElem?_script (isPrefix_frameScript hinv) hf (t := t) (by rw [hdata]; rfl)
    refine ⟨t, payload, ht, hlen, ?_⟩
    rw [hdata, hseq, number_frameScript _ ht]
  · obtain ⟨f, hf, -, hparse⟩ := accepted_was_sent hboot hair hmsg
    obtain ⟨msg', hparse', hmsg', -, -, -, t, htype⟩ :=
      ((hclean.speaks x.other).sent (List.mem_of_getElem? hf)).understood msg.srcMac
    rw [SentFrame.packet, hparse', Option.some.injEq] at hparse
    subst hparse
    have ht := getElem?_script (isPrefix_acceptScript hinv) hmsg htype
    refine ⟨t, ht, htype, (hmsg'.numbered t htype).trans ?_⟩
    rw [acceptScript_eq (Role.other_ne b.cfg.role)] at ht
    exact number_frameScript _ ht

theorem complete_run (hboot : ∀ x, (s₀ x).Booted) (hair : Allowed Pair.step OnlyCopies s₀ acts)
    {acts' : List (Act L)} (hair' : Allowed Pair.step OnlyCopies (run Pair.step s₀ acts) acts')
    {x : Side} (hc : (run Pair.step s₀ acts x).dev.state = .complete) :
    (run Pair.step (run Pair.step s₀ acts) acts' x).dev.state = .complete := by
  refine (run_hist_inv (I := fun as s => PairInv s ∧ Clean s₀ (acts ++ as) s ∧
      ∀ y, y = x → (s y).dev.state = .complete)
    ⟨inv_pair hboot acts, (acts.append_nil.symm ▸ clean_run hboot hair), ?_⟩
    (fun as s act h hact => ⟨(pair_step h.1 act).1, ?_, ?_⟩) hair').2.2 x rfl
  · rintro y rfl
    exact hc
  · rw [← List.append_assoc]
    exact clean_step h.1 h.2.1 hact
  · refine dev_step (P := fun y d => y = x → d.state = .complete) h.2.2 act fun t _ _ hin hy => ?_
    refine step_of_complete (N := ByType) (h.1 _) (h.2.2 _ hy) fun msg hmsg => ?_
    obtain ⟨rx, hrx, hparse⟩ := hin msg hmsg
    exact h.2.1.queued _ rx hrx msg hparse

/-- **What the completion of a board says about the other.** Under the same air, a board that is
complete stays complete, and the other board has sent its three frames and has not failed. Unless a
failed driver call has halted it, the other is complete as well, or is an initiator that only waits
for KEY_TEST_ACK. So when the initiator is complete, a responder that has not halted is complete. -/
theorem completion_agreement (hboot : ∀ x, (s₀ x).Booted)
    (hair : Allowed Pair.step OnlyCopies s₀ acts) {x : Side}
    (hc : (run Pair.step s₀ acts x).dev.state = .complete) :
    let o := run Pair.step s₀ acts x.other
    o.dev.sentFrames.length = 3 ∧ o.dev.state ≠ .failed ∧
    (o.dev.pc = .halted ∨ o.dev.state = .complete ∨
      o.cfg.role = .initiator ∧ o.dev.state = .waitKeyTestAck ∧ o.dev.pc = .loop) ∧
    ∀ acts', Allowed Pair.step OnlyCopies (run Pair.step s₀ acts) acts' →
      (run Pair.step (run Pair.step s₀ acts) acts' x).dev.state = .complete := by
  intro o
  have hinv := inv_pair hboot acts
  have hclean := clean_run hboot hair
  have hall : o.dev.sentFrames.length = 3 := by
    have hge := length_acceptedMsgs_le hboot hair x
    rw [length_acceptedMsgs_complete (hinv x) hc] at hge
    exact le_antisymm (length_sentFrames_le (hinv x.other)) hge
  have hne : o.dev.state ≠ .failed := fun hs =>
    (hclean.unfinished x.other hs).ne hall
  refine ⟨hall, hne, ?_, fun acts' hair' => complete_run hboot hair hair' hc⟩
  by_cases hpc : o.dev.pc = .halted
  · exact .inl hpc
  · obtain ⟨hloop, hwait⟩ := waits_of_all_sent (hinv x.other)
      ((hclean.onPath x.other).resolve_right hne) hall hpc
    exact .inr (hwait.imp_right fun h => ⟨h.1, h.2, hloop⟩)

end Results

/-- The responder hears message_1 three times, and its PMK cannot be set. -/
def failingActs : List (Act Lakers.sample) :=
  [.startCheck .a 2000 .sample, .deliver .b 0, .deliver .b 0, echo .b strangerMac, .poll .b .sample,
    .poll .b .sample, .poll .b .sample, .deliver .a 0, .poll .a .sample, .deliver .b 1,
    .poll .b .sample, .delayOver .b ⟨(0 : UInt8), { EspNowRes.ok with setPmk := espFail }⟩]

theorem copies_never_fail_sample :
    Blame Pair.sample failingActs .b (run Pair.step Pair.sample failingActs .b).dev :=
  copies_never_fail booted_sample (by decide) .b (by decide)

theorem frames_numbered_sample :
    ∃ msg, (run Pair.step Pair.sample sampleActs .a).dev.acceptedMsgs[0]? = some msg ∧
      msg.seq = 2 := by
  obtain ⟨msg, hmsg⟩ : ∃ msg, (run Pair.step Pair.sample sampleActs .a).dev.acceptedMsgs[0]? =
      some msg := Option.isSome_iff_exists.mp (by decide)
  obtain ⟨t, -, -, hseq⟩ := (frames_numbered booted_sample (by decide) .a 0).2 msg hmsg
  exact ⟨msg, hmsg, hseq⟩

theorem completion_agreement_sample :
    (run Pair.step Pair.sample sampleActs .b).dev.sentFrames.length = 3 :=
  (completion_agreement booted_sample (by decide) (x := .a) (by decide)).1

end EspNowEdhoc
