import EspNowEdhoc.Device.Completion
import EspNowEdhoc.Pair.Confirmation

/-!
# What is accepted was sent

The air may lose, duplicate, reorder and reflect the frames of the boards, and change their source.

* `OnlyCopies`: every frame that arrives is a copy of one that a board has sent.
* `Heard`: what is queued and what has been accepted was brought by an act; `heard_run`.
* **`accepted_was_sent`**: the `i`-th message a board accepts is the `i`-th frame of the other.
* **`lockstep`**: the boards send and accept in turns, over any run.
* **`lost_frame_stalls`**: a frame that never arrives ends the pairing where it is.
-/

set_option autoImplicit false

namespace EspNowEdhoc

open Runs Script

variable {L : Lakers}

/-! ## The air -/

/-- Every frame that arrives is a copy of one that a board has sent, under any source address. -/
def OnlyCopies (s : Pair L) : Act L → Prop
  | .inject _ _ data => ∃ y, data ∈ (s y).dev.sentFrames.map (·.data)
  | .startCheck .. | .poll .. | .delayOver .. | .deliver .. => True

instance (s : Pair L) : ∀ act : Act L, Decidable (OnlyCopies s act)
  | .inject _ _ data =>
    decidable_of_iff (data ∈ (s .a).dev.sentFrames.map (·.data) ∨
      data ∈ (s .b).dev.sentFrames.map (·.data))
      ⟨fun h => h.elim (⟨_, ·⟩) (⟨_, ·⟩), fun | ⟨.a, h⟩ => .inl h | ⟨.b, h⟩ => .inr h⟩
  | .startCheck .. | .poll .. | .delayOver .. | .deliver .. => .isTrue trivial

/-- The act brings a copy of `f`, a frame that a board has sent, to the board `x`. -/
def Act.Brings (s : Pair L) (x : Side) (f : SentFrame) : Act L → Prop
  | .deliver x' n => x' = x ∧ (s x.other).dev.sentFrames[n]? = some f
  | .inject x' _ data => x' = x ∧ data = f.data ∧ ∃ y, f ∈ (s y).dev.sentFrames
  | .startCheck .. | .poll .. | .delayOver .. => False

section Air

variable {s s' : Pair L} {x : Side} {f : SentFrame} {act : Act L}

theorem PairGrows.sentFrames (hg : PairGrows s s') (y : Side) :
    (s y).dev.sentFrames <+: (s' y).dev.sentFrames := (hg y).2.trace.filterMap Event.sent?

theorem Act.Brings.mono (h : act.Brings s x f) (hg : PairGrows s s') : act.Brings s' x f := by
  cases act with
  | deliver x' n => exact ⟨h.1, getElem?_of_isPrefix (hg.sentFrames _) h.2⟩
  | inject x' src data =>
    obtain ⟨hx, hdata, y, hf⟩ := h
    exact ⟨hx, hdata, y, (hg.sentFrames y).subset hf⟩
  | startCheck | poll | delayOver => exact h.elim

theorem fits_sent {cfg : Config} {d : Device L} (h : Inv cfg d) (hf : f ∈ d.sentFrames) :
    (Event.sent f).Fits cfg d := by
  obtain ⟨ev, hev, heq⟩ := List.mem_filterMap.mp hf
  cases ev with
  | sent f' => cases heq; exact h.at_ahead.fits _ hev
  | handshake | exportLmk | accepted | installed => cases heq

theorem Act.Brings.sent (h : act.Brings s x f) : ∃ y, f ∈ (s y).dev.sentFrames := by
  cases act with
  | deliver x' n => exact ⟨_, List.mem_of_getElem? h.2⟩
  | inject x' src data => exact h.2.2
  | startCheck | poll | delayOver => exact h.elim

end Air

/-! ## The messages accepted -/

/-- A packet that holds a copy of the frame. -/
def SentFrame.packet (f : SentFrame) (src : Mac) : RxPacket := rxPacket src f.data f.data.length

/-- The packets queued and the messages accepted were brought by an act of the run. -/
structure Heard (acts : List (Act L)) (s : Pair L) : Prop where
  queued : ∀ x, ∀ rx ∈ (s x).rxQueue.items,
    ∃ act ∈ acts, ∃ f : SentFrame, act.Brings s x f ∧ rx = f.packet rx.srcMac
  accepted : ∀ x, ∀ msg ∈ (s x).dev.acceptedMsgs,
    ∃ act ∈ acts, ∃ f : SentFrame, act.Brings s x f ∧ parsedMsg (f.packet msg.srcMac) = some msg

section Heard

variable {s s₀ : Pair L} {acts : List (Act L)}

theorem accepted_boardAfter (act : Act L) {msg : EdhocTransportMsg}
    (h : msg ∈ (s.boardAfter act).dev.acceptedMsgs) :
    msg ∈ (s act.side).dev.acceptedMsgs ∨
      ∃ rx ∈ (s act.side).rxQueue.items, parsedMsg rx = some msg := by
  have hstep {b : Board L} {t : TaskStep L} (hgot : receivedMsgs [t] = [])
      (h : msg ∈ (b.take t).dev.acceptedMsgs) : msg ∈ b.dev.acceptedMsgs := by
    obtain ⟨l, heq, hl⟩ := accepts_step b.cfg (d := b.dev) t
    rw [hgot] at hl
    rwa [Board.take, heq, List.sublist_nil.mp hl, List.append_nil] at h
  cases act with
  | startCheck x tick env => exact .inl (hstep rfl h)
  | delayOver x env => exact .inl (hstep rfl h)
  | inject x src data => exact .inl h
  | deliver x n =>
    simp only [Pair.boardAfter] at h
    split at h
    · exact .inl h
    · exact .inl h
  | poll x env =>
    simp only [Pair.boardAfter] at h
    cases polled (s x) env with
    | idle hb => rw [hb] at h; exact .inl h
    | rejected rx queue _ _ _ hb => rw [hb] at h; exact .inl h
    | handled rx queue msg' _ hpop hmsg hb =>
      rw [hb] at h
      obtain ⟨l, heq, hl⟩ := accepts_handleReceivedMessage (s x).cfg env (d := (s x).dev) msg'
      rw [show Device.acceptedMsgs _ = _ from heq, List.mem_append] at h
      refine h.imp_right fun h => ⟨rx, BoundedQueue.head_mem_of_pop hpop, ?_⟩
      rw [hmsg, List.mem_singleton.mp (hl.subset h)]

theorem queued_boardAfter {act : Act L} (hact : OnlyCopies s act) {rx : RxPacket}
    (h : rx ∈ (s.boardAfter act).rxQueue.items) :
    rx ∈ (s act.side).rxQueue.items ∨
      ∃ f : SentFrame, act.Brings s act.side f ∧ rx = f.packet rx.srcMac := by
  cases act with
  | startCheck x tick env => exact .inl h
  | delayOver x env => exact .inl h
  | poll x env => exact .inl (mem_poll h)
  | deliver x n =>
    simp only [Pair.boardAfter] at h
    split at h
    · exact .inl h
    · next f hf =>
      refine (mem_arrive h).imp_right fun heq => ⟨f, ⟨rfl, hf⟩, ?_⟩
      rw [heq]
      rfl
  | inject x src data =>
    obtain ⟨y, hy⟩ := hact
    obtain ⟨f, hf, rfl⟩ := List.mem_map.mp hy
    refine (mem_arrive h).imp_right fun heq => ⟨f, ⟨rfl, rfl, y, hf⟩, ?_⟩
    rw [heq]
    rfl

/-- **One act** brings what it queues, and accepts what an earlier act has brought. -/
theorem heard_step (hinv : PairInv s) (h : Heard acts s) {act : Act L} (hact : OnlyCopies s act) :
    Heard (acts ++ [act]) (s.step act) := by
  have hg := (pair_step hinv act).2
  have hold {x : Side} {P : SentFrame → Prop}
      (h : ∃ act ∈ acts, ∃ f : SentFrame, act.Brings s x f ∧ P f) :
      ∃ act' ∈ acts ++ [act], ∃ f : SentFrame, act'.Brings (s.step act) x f ∧ P f := by
    obtain ⟨act', hact', f, hf, hp⟩ := h
    exact ⟨act', List.mem_append_left _ hact', f, hf.mono hg, hp⟩
  constructor
  · intro x rx hrx
    by_cases hx : x = act.side
    · subst hx
      rw [Pair.step_self] at hrx
      rcases queued_boardAfter hact hrx with hin | ⟨f, hf, hp⟩
      · exact hold (h.queued _ rx hin)
      · exact ⟨act, List.mem_concat_self, f, hf.mono hg, hp⟩
    · rw [Pair.step_of_ne s act hx] at hrx
      exact hold (h.queued x rx hrx)
  · intro x msg hmsg
    by_cases hx : x = act.side
    · subst hx
      rw [Pair.step_self] at hmsg
      rcases accepted_boardAfter act hmsg with hin | ⟨rx, hrx, hparse⟩
      · exact hold (h.accepted _ msg hin)
      · obtain ⟨act', hact', f, hf, hp⟩ := h.queued _ rx hrx
        refine hold ⟨act', hact', f, hf, ?_⟩
        rw [(parsedMsg_eq_some hparse).1, ← hp, hparse]
    · rw [Pair.step_of_ne s act hx] at hmsg
      exact hold (h.accepted x msg hmsg)

theorem heard_run (hboot : ∀ x, (s₀ x).Booted) (hair : Allowed Pair.step OnlyCopies s₀ acts) :
    Heard acts (run Pair.step s₀ acts) := by
  have hstart : Heard ([] : List (Act L)) s₀ := by
    constructor
    · intro x rx hrx
      rw [(hboot x).1] at hrx
      cases hrx
    · intro x msg hmsg
      obtain ⟨-, env, created, bootTick, hdev⟩ := hboot x
      rw [Device.acceptedMsgs, (appMain_eq_some hdev).2.2.2.1] at hmsg
      cases hmsg
  exact (run_hist_inv (I := fun acts s => PairInv s ∧ Heard acts s)
    ⟨fun x => inv_booted (hboot x), hstart⟩
    (fun acts s act h hact => ⟨(pair_step h.1 act).1, heard_step h.1 h.2 hact⟩) hair).2

end Heard

/-! ## The order of the messages -/

theorem acceptScript_eq {role role' : Role} (h : role' ≠ role) :
    acceptScript role = frameScript role' := by
  cases role <;> cases role' <;> first | rfl | exact absurd rfl h

theorem nodup_frameScript (role : Role) : ((frameScript role).map MsgType.code).Nodup := by
  cases role <;> decide

theorem disjoint_scripts (role : Role) : ∀ c ∈ (acceptScript role).map MsgType.code,
    c ∉ (frameScript role).map MsgType.code := by
  rintro c hc hc'
  obtain ⟨t, ht, rfl⟩ := List.mem_map.mp hc
  obtain ⟨t', ht', heq⟩ := List.mem_map.mp hc'
  rw [MsgType.code_inj.mp heq] at ht'
  revert ht ht'
  cases role <;> cases t <;> decide

section Scripts

variable {cfg : Config} {d : Device L}

theorem isPrefix_frameScript (h : Inv cfg d) :
    d.sentFrames.map (frameType ·.data) <+: (frameScript cfg.role).map MsgType.code := by
  rw [map_frameType_sentFrames h.at_ahead]
  have hpre := (h.at_ahead.follows.isPrefix.filterMap Milestone.sent?).map MsgType.code
  cases hrole : cfg.role <;> rw [hrole] at hpre <;> exact hpre

theorem length_sentFrames_le (h : Inv cfg d) : d.sentFrames.length ≤ 3 := by
  have hlen := (isPrefix_frameScript h).length_le
  rw [List.length_map, List.length_map] at hlen
  exact hlen.trans_eq (by cases cfg.role <;> rfl)

theorem isPrefix_acceptScript (h : Inv cfg d) :
    d.acceptedMsgs.map (·.type) <+: (acceptScript cfg.role).map MsgType.code := by
  rw [map_type_acceptedMsgs h.at_ahead]
  have hpre := (h.at_ahead.follows.isPrefix.filterMap Milestone.accepted?).map MsgType.code
  cases hrole : cfg.role <;> rw [hrole] at hpre <;> exact hpre

theorem script_turns (role : Role) : ∀ log ∈ (completionScript role).inits,
    (role = .initiator →
      (log.filterMap Milestone.accepted?).length ≤ (log.filterMap Milestone.sent?).length ∧
      (log.filterMap Milestone.sent?).length ≤ (log.filterMap Milestone.accepted?).length + 1) ∧
    (role = .responder →
      (log.filterMap Milestone.sent?).length ≤ (log.filterMap Milestone.accepted?).length ∧
      (log.filterMap Milestone.accepted?).length ≤
        (log.filterMap Milestone.sent?).length + 1) := by
  cases role <;> decide

theorem turns (h : Inv cfg d) :
    (cfg.role = .initiator → d.acceptedMsgs.length ≤ d.sentFrames.length ∧
      d.sentFrames.length ≤ d.acceptedMsgs.length + 1) ∧
    (cfg.role = .responder → d.sentFrames.length ≤ d.acceptedMsgs.length ∧
      d.acceptedMsgs.length ≤ d.sentFrames.length + 1) := by
  have hsent := congrArg List.length (map_frameType_sentFrames h.at_ahead)
  have hacc := congrArg List.length (map_type_acceptedMsgs h.at_ahead)
  simp only [List.length_map] at hsent hacc
  rw [hsent, hacc]
  exact script_turns cfg.role _ ((List.mem_inits ..).mpr h.at_ahead.follows.isPrefix)

theorem length_acceptedMsgs_complete (h : Inv cfg d) (hc : d.state = .complete) :
    d.acceptedMsgs.length = 3 := by
  have hacc := congrArg List.length (map_type_acceptedMsgs h.at_ahead)
  rw [List.length_map, milestones_complete h hc, List.length_map] at hacc
  rw [hacc]
  cases cfg.role <;> rfl

end Scripts

section Order

variable {s₀ : Pair L} {acts : List (Act L)}

theorem role_run (hboot : ∀ x, (s₀ x).Booted) (acts : List (Act L)) (x : Side) :
    (run Pair.step s₀ acts x).cfg.role = (s₀ x).cfg.role := by
  rw [(grows_pair (fun x => inv_booted (hboot x)) acts x).1]

/-- **The `i`-th message a board accepts is the `i`-th frame of the other**, and an act brought
it. -/
theorem accepted_was_sent (hboot : ∀ x, (s₀ x).Booted)
    (hair : Allowed Pair.step OnlyCopies s₀ acts) {x : Side} {i : ℕ} {msg : EdhocTransportMsg}
    (hmsg : (run Pair.step s₀ acts x).dev.acceptedMsgs[i]? = some msg) :
    ∃ f, (run Pair.step s₀ acts x.other).dev.sentFrames[i]? = some f ∧
      (∃ act ∈ acts, act.Brings (run Pair.step s₀ acts) x f) ∧
      parsedMsg (f.packet msg.srcMac) = some msg := by
  have hinv := inv_pair hboot acts
  have hheard := heard_run hboot hair
  generalize run Pair.step s₀ acts = s at *
  have hacc := isPrefix_acceptScript (hinv x)
  have htype (msg : EdhocTransportMsg) (f : SentFrame)
      (h : parsedMsg (f.packet msg.srcMac) = some msg) : msg.type = frameType f.data :=
    (type_of_parsedMsg h).trans (type_rxPacket ..)
  -- the frames of the accepted messages are the other board's, which has the other role
  have hother (msg) (hin : msg ∈ (s x).dev.acceptedMsgs) :
      ∃ f ∈ (s x.other).dev.sentFrames, ((∃ act ∈ acts, act.Brings s x f) ∧
        parsedMsg (f.packet msg.srcMac) = some msg) ∧ (s x.other).cfg.role ≠ (s x).cfg.role := by
    obtain ⟨act, hact, f, hf, hparse⟩ := hheard.accepted x msg hin
    obtain ⟨y, hy⟩ := hf.sent
    have hrole : (s y).cfg.role ≠ (s x).cfg.role := by
      intro hrole
      have hfy := (isPrefix_frameScript (hinv y)).subset (List.mem_map_of_mem hy)
      rw [hrole, ← htype msg f hparse] at hfy
      exact disjoint_scripts _ _ (hacc.subset (List.mem_map_of_mem hin)) hfy
    rcases x.eq_or_other y with rfl | rfl
    · exact absurd rfl hrole
    · exact ⟨f, hy, ⟨⟨act, hact, hf⟩, hparse⟩, hrole⟩
  obtain ⟨-, -, -, hrole⟩ := hother msg (List.mem_of_getElem? hmsg)
  rw [acceptScript_eq hrole] at hacc
  exact matched_of_keys (nodup_frameScript _) hacc (isPrefix_frameScript (hinv x.other))
    (fun msg hin => let ⟨f, hf, h, _⟩ := hother msg hin; ⟨f, hf, h⟩)
    (fun msg f h => htype msg f h.2) hmsg

theorem length_acceptedMsgs_le (hboot : ∀ x, (s₀ x).Booted)
    (hair : Allowed Pair.step OnlyCopies s₀ acts) (x : Side) :
    (run Pair.step s₀ acts x).dev.acceptedMsgs.length ≤
      (run Pair.step s₀ acts x.other).dev.sentFrames.length := by
  by_contra hlt
  obtain ⟨f, hf, -⟩ := accepted_was_sent hboot hair
    (List.getElem?_eq_getElem (Nat.lt_of_not_le hlt))
  exact Nat.lt_irrefl _ (List.getElem?_eq_some_iff.mp hf).1

theorem counts_le (hboot : ∀ x, (s₀ x).Booted) (ha : (s₀ .a).cfg.role = .initiator)
    (hb : (s₀ .b).cfg.role = .responder) (hair : Allowed Pair.step OnlyCopies s₀ acts) :
    let s := run Pair.step s₀ acts
    (s .a).dev.acceptedMsgs.length ≤ (s .b).dev.sentFrames.length ∧
      (s .b).dev.sentFrames.length ≤ (s .b).dev.acceptedMsgs.length ∧
      (s .b).dev.acceptedMsgs.length ≤ (s .a).dev.sentFrames.length ∧
      (s .a).dev.sentFrames.length ≤ (s .a).dev.acceptedMsgs.length + 1 := by
  intro s
  have hinv := inv_pair hboot acts
  have hta := (turns (hinv .a)).1 ((role_run hboot acts .a).trans ha)
  have htb := (turns (hinv .b)).2 ((role_run hboot acts .b).trans hb)
  exact ⟨length_acceptedMsgs_le hboot hair .a, htb.1, length_acceptedMsgs_le hboot hair .b, hta.2⟩

/-- **Lockstep.** An initiator `a` and a responder `b` boot, and the air loses, duplicates, reorders
and reflects their frames under any source address. At every point of every run, the `i`-th message
a board has accepted is, byte for byte, the `i`-th frame the other has sent, and the two take turns:
no board is ever more than one frame ahead. -/
theorem lockstep (hboot : ∀ x, (s₀ x).Booted) (ha : (s₀ .a).cfg.role = .initiator)
    (hb : (s₀ .b).cfg.role = .responder) (hair : Allowed Pair.step OnlyCopies s₀ acts) :
    let s := run Pair.step s₀ acts
    (∀ (x : Side) (i : ℕ) (msg : EdhocTransportMsg), (s x).dev.acceptedMsgs[i]? = some msg →
      ∃ f : SentFrame, (s x.other).dev.sentFrames[i]? = some f ∧
        parsedMsg (f.packet msg.srcMac) = some msg) ∧
    (s .a).dev.acceptedMsgs.length ≤ (s .b).dev.sentFrames.length ∧
    (s .b).dev.sentFrames.length ≤ (s .b).dev.acceptedMsgs.length ∧
    (s .b).dev.acceptedMsgs.length ≤ (s .a).dev.sentFrames.length ∧
    (s .a).dev.sentFrames.length ≤ (s .a).dev.acceptedMsgs.length + 1 := by
  intro s
  refine ⟨fun x i msg hmsg => ?_, counts_le hboot ha hb hair⟩
  obtain ⟨f, hf, -, hparse⟩ := accepted_was_sent hboot hair hmsg
  exact ⟨f, hf, hparse⟩

end Order

/-- A copy of the message_1 of the sample initiator. -/
def echo (x : Side) (src : Mac) : Act Lakers.sample :=
  .inject x src (frameBytes MsgType.m1.code edhocSessionId 1 sampleMessage1)

/-- The initiator hears its own message_1, and the responder hears it twice from a stranger. -/
def echoedActs : List (Act Lakers.sample) :=
  [.startCheck .a 2000 .sample, echo .a strangerMac, .poll .a .sample, echo .b strangerMac,
    echo .b strangerMac, .poll .b .sample, .poll .b .sample, .deliver .a 0, .poll .a .sample]

theorem lockstep_sample :
    let s := run Pair.step Pair.sample echoedActs
    (s .b).dev.acceptedMsgs.length = 1 ∧ (s .a).dev.acceptedMsgs.length = 1 ∧
      (s .b).dev.sentFrames.length ≤ (s .b).dev.acceptedMsgs.length :=
  ⟨by decide, by decide, (lockstep booted_sample rfl rfl (by decide)).2.2.1⟩

/-! ## Lost frames -/

section Lost

variable {s₀ : Pair L} {acts : List (Act L)}

/-- **A lost frame ends the pairing.** Under the same air, if no act of a run brings the frame `n`
of a board to the other, then the other never completes, and the board itself completes only if it
is the responder and the frame is its last one, KEY_TEST_ACK. -/
theorem lost_frame_stalls (hboot : ∀ x, (s₀ x).Booted) (ha : (s₀ .a).cfg.role = .initiator)
    (hb : (s₀ .b).cfg.role = .responder) (hair : Allowed Pair.step OnlyCopies s₀ acts) {x : Side}
    {n : ℕ} (hn : n < 3)
    (hlost : ∀ act ∈ acts, ∀ f, (run Pair.step s₀ acts x.other).dev.sentFrames[n]? = some f →
      ¬ act.Brings (run Pair.step s₀ acts) x f) :
    let s := run Pair.step s₀ acts
    (s x).dev.acceptedMsgs.length ≤ n ∧ (s x).dev.state ≠ .complete ∧
      ((s x.other).dev.state = .complete → x = .a ∧ n = 2) := by
  have hinv := inv_pair hboot acts
  have hcounts := counts_le hboot ha hb hair
  have hle : (run Pair.step s₀ acts x).dev.acceptedMsgs.length ≤ n := by
    by_contra hlt
    obtain ⟨f, hf, ⟨act, hact, hbrings⟩, -⟩ := accepted_was_sent hboot hair
      (List.getElem?_eq_getElem (Nat.lt_of_not_le hlt))
    exact hlost act hact f hf hbrings
  refine ⟨hle, fun hc => ?_, fun hc => ?_⟩
  · have hall := length_acceptedMsgs_complete (hinv x) hc
    omega
  · have hall := length_acceptedMsgs_complete (hinv x.other) hc
    cases x with
    | a =>
      refine ⟨rfl, ?_⟩
      simp only [Side.other] at hall
      omega
    | b =>
      simp only [Side.other] at hall
      omega

end Lost

theorem lost_frame_stalls_sample :
    let s := run Pair.step Pair.sample [.startCheck .a 2000 .sample, .poll .b .sample]
    (s .a).dev.sentFrames.length = 1 ∧ (s .b).dev.state ≠ .complete := by
  refine ⟨by decide, (lost_frame_stalls (x := .b) (n := 0) booted_sample rfl rfl (by decide)
    (by decide) fun act hact f _ hbrings => ?_).2.1⟩
  rw [List.mem_pair] at hact
  rcases hact with rfl | rfl
  · exact hbrings
  · exact hbrings

end EspNowEdhoc
