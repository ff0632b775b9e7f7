import EspNowEdhoc.Device.Position
import EspNowEdhoc.Pair.System

/-!
# No stuck run without loss

* `Undisturbed`: every driver call succeeds and no third station sends. Frames may be delivered any
  number of times and in any order.
* `BothReached t k s`: the boards have reached the positions `k` of one transcript, and a board that
  has passed the position where it waits for a frame was sent that frame.
* `reached_step`: one act takes each board to its position or the next, and uses up no other frame.
* **`no_stuck_run`**: no board fails, and a quiescent pair that has started is complete with one
  LMK.
-/

set_option autoImplicit false

namespace EspNowEdhoc

open Runs

variable {L : Lakers}

/-! ## Runs without loss -/

/-- Every driver call succeeds, and no third station sends. -/
def Undisturbed (_ : Pair L) : Act L → Prop
  | .startCheck _ _ env | .poll _ env | .delayOver _ env => env.esp = .ok
  | .deliver _ _ => True
  | .inject _ _ _ => False

/-- The `n`-th frame sent to `x` has been put into its queue. -/
def Delivered (s₀ : Pair L) (acts : List (Act L)) (x : Side) (n : ℕ) : Prop :=
  ∃ before after, acts = before ++ .deliver x n :: after ∧
    n < (run Pair.step s₀ before x.other).dev.sentFrames.length ∧
    ¬ (run Pair.step s₀ before x).rxQueue.Full

/-- Every frame sent has been delivered, the queues are empty, and no task is in a delay. -/
structure Quiescent (s₀ : Pair L) (acts : List (Act L)) : Prop where
  delivered : ∀ x n, n < (run Pair.step s₀ acts x.other).dev.sentFrames.length →
    Delivered s₀ acts x n
  emptied : ∀ x, (run Pair.step s₀ acts x).rxQueue.items = []
  loop : ∀ x, (run Pair.step s₀ acts x).dev.pc = .loop

theorem delivered_concat {s₀ : Pair L} {acts : List (Act L)} {act : Act L} {x : Side} {n : ℕ}
    (h : Delivered s₀ (acts ++ [act]) x n) :
    Delivered s₀ acts x n ∨ act = .deliver x n ∧
      n < (run Pair.step s₀ acts x.other).dev.sentFrames.length ∧
      ¬ (run Pair.step s₀ acts x).rxQueue.Full := by
  obtain ⟨before, after, heq, hn, hfull⟩ := h
  rcases List.eq_nil_or_concat after with rfl | ⟨after, last, rfl⟩
  · obtain ⟨rfl, hact⟩ := List.append_inj' heq rfl
    exact .inr ⟨List.singleton_inj.mp hact, hn, hfull⟩
  · rw [List.concat_eq_append, ← List.cons_append, ← List.append_assoc] at heq
    obtain ⟨rfl, -⟩ := List.append_inj' heq rfl
    exact .inl ⟨before, after, rfl, hn, hfull⟩

/-! ## Positions of both boards -/

/-- The side of the initiator is `a`. -/
def Side.role : Side → Role
  | .a => .initiator
  | .b => .responder

theorem Side.role_other (x : Side) : x.other.role = x.role.other := by cases x <;> rfl

/-- The packet holds the `n`-th frame sent to `x`. -/
def Holds (s : Pair L) (x : Side) (n : ℕ) (rx : RxPacket) : Prop :=
  ∃ data, (s x.other).dev.sentData[n]? = some data ∧
    rx = rxPacket (s x.other).cfg.ownMac data data.length

/-- The boards have reached the positions `k`, and no board has passed the position where it waits
for a frame that has not been sent. -/
structure BothReached (t : Transcript L) (k : Side → ℕ) (s : Pair L) : Prop where
  role : ∀ x, (s x).cfg.role = x.role
  reached : ∀ x, Reached x.role (s x).cfg.exporterContext t (k x) (s x).dev
  received : ∀ x n, waitsAt x.role n < k x → slot n < k x.other

section Positions

variable {t : Transcript L} {k : Side → ℕ} {s : Pair L} {x : Side} {n : ℕ} {rx : RxPacket}

theorem BothReached.sent (h : BothReached t k s) {data : List UInt8}
    (hdata : (s x.other).dev.sentData[n]? = some data) :
    ∃ q, (t.sendings x.role.other)[n]? = some q ∧ slot n < k x.other ∧ data = q.bytes := by
  rw [(h.reached x.other).sent, List.getElem?_take] at hdata
  split at hdata
  · next hn =>
    rw [List.getElem?_map, Option.map_eq_some_iff] at hdata
    obtain ⟨q, hq, rfl⟩ := hdata
    rw [x.role_other] at hq
    exact ⟨q, hq, (lt_sentBefore (lt_three hq)).mp hn, rfl⟩
  · cases hdata

theorem BothReached.holds (h : BothReached t k s) (hrx : Holds s x n rx) :
    ∃ q, (t.sendings x.role.other)[n]? = some q ∧ slot n < k x.other ∧
      rx = rxPacket (s x.other).cfg.ownMac q.bytes q.bytes.length := by
  obtain ⟨data, hdata, rfl⟩ := hrx
  obtain ⟨q, hq, hn, rfl⟩ := h.sent hdata
  exact ⟨q, hq, hn, rfl⟩

theorem BothReached.holds_unique {m : ℕ} (h : BothReached t k s) (hrx : Holds s x n rx)
    (hrx' : Holds s x m rx) : n = m := by
  obtain ⟨q, hq, -, rfl⟩ := h.holds hrx
  obtain ⟨q', hq', -, heq⟩ := h.holds hrx'
  have hmsg := parsedMsg_bytes hq (s x.other).cfg.ownMac
  rw [heq, parsedMsg_bytes hq', Option.some.injEq] at hmsg
  exact sendings_type_inj hq hq' (MsgType.code_inj.mp (congrArg EdhocTransportMsg.type hmsg)).symm

theorem BothReached.waitsAt_le (h : BothReached t k s) (hpc : (s x).dev.pc = .loop)
    (hn : slot n < k x.other) : waitsAt x.role n ≤ k x := by
  cases x with
  | a => exact h.received .b n hn
  | b =>
    -- M3 was made from M2, and KEY_TEST after ACK; from there only the delay is left
    have hr (m : ℕ) (hm : slot m + 1 < k .a) : slot m < k .b := h.received .a m hm
    have hpc := (h.reached .b).pc.symm.trans hpc
    have hdelay : k .b ≠ 2 := fun hk => by rw [hk] at hpc; cases hpc
    have hr0 := hr 0
    have hr1 := hr 1
    change slot n < k .a at hn
    change slot n ≤ k .b
    have hcases := slot_cases n
    simp only [slot] at hr0 hr1
    omega

theorem BothReached.draw_makeM1 (hhonest : L.Honest) (h : BothReached t k s) (x : Side)
    (rng : L.Rng) :
    ∃ t', BothReached t' k s ∧ (x.role = .initiator → k x = 0 → t'.makeM1 = rng) := by
  by_cases hx : x = .a ∧ k .a = 0
  · obtain ⟨rfl, hka⟩ := hx
    have hkb : k .b = 0 := by
      by_contra hne
      have hsent : 0 < k .a := h.received .b 0 (Nat.pos_of_ne_zero hne)
      omega
    obtain ⟨t', hbootI, hmake, hbootR, -⟩ := hhonest t.bootI rng t.bootR t.makeM2
    refine ⟨t', ⟨h.role, fun y => ?_, h.received⟩, fun _ _ => hmake⟩
    have hy := h.reached y
    cases y with
    | a => rw [hka] at hy ⊢; exact hy.congr_boot hbootI
    | b => rw [hkb] at hy ⊢; exact hy.congr_boot hbootR
  · refine ⟨t, h, fun hrole hk => ?_⟩
    cases x with
    | a => exact absurd ⟨rfl, hk⟩ hx
    | b => cases hrole

theorem BothReached.draw_makeM2 (hhonest : L.Honest) (h : BothReached t k s) (x : Side)
    (rng : L.Rng) :
    ∃ t', BothReached t' k s ∧ (x.role = .responder → k x = 0 → t'.makeM2 = rng) := by
  by_cases hx : x = .b ∧ k .b = 0
  · obtain ⟨rfl, hkb⟩ := hx
    have hka : k .a ≤ 1 := by
      by_contra hlt
      have hsent : 0 < k .b := h.received .a 0 (Nat.lt_of_not_le hlt)
      omega
    obtain ⟨t', hbootI, hmake, hbootR, hmake'⟩ := hhonest t.bootI t.makeM1 t.bootR rng
    refine ⟨t', ⟨h.role, fun y => ?_, h.received⟩, fun _ _ => hmake'⟩
    have hy := h.reached y
    cases y with
    | a =>
      rcases Nat.le_one_iff_eq_zero_or_eq_one.mp hka with hka | hka
      · rw [hka] at hy ⊢; exact hy.congr_boot hbootI
      · rw [hka] at hy ⊢; exact hy.congr_start hbootI hmake
    | b => rw [hkb] at hy ⊢; exact hy.congr_boot hbootR
  · refine ⟨t, h, fun hrole hk => ?_⟩
    cases x with
    | a => cases hrole
    | b => exact absurd ⟨rfl, hk⟩ hx

end Positions

/-! ## One act -/

/-- The boards have come as far as before or further, and a packet is still queued unless its
receiver has passed the position where it waits for it. -/
structure Advanced (k : Side → ℕ) (s : Pair L) (t' : Transcript L) (k' : Side → ℕ) (s' : Pair L) :
    Prop where
  both : BothReached t' k' s'
  le : ∀ y, k y ≤ k' y
  kept : ∀ y n, ∀ rx ∈ (s y).rxQueue.items, Holds s y n rx →
    rx ∈ (s' y).rxQueue.items ∨ waitsAt y.role n < k' y

section Act

variable {t : Transcript L} {k : Side → ℕ} {s : Pair L}

/-- **A board takes a step to position `k'`**, behind which it was sent every frame it waits for. -/
theorem BothReached.advance (h : BothReached t k s) {act : Act L} {k' : ℕ}
    (hcfg : (s.boardAfter act).cfg = (s act.side).cfg)
    (hreached : Reached act.side.role (s act.side).cfg.exporterContext t k' (s.boardAfter act).dev)
    (hle : k act.side ≤ k')
    (hreceived : ∀ n, waitsAt act.side.role n < k' → slot n < k act.side.other)
    (hkept : ∀ n, ∀ rx ∈ (s act.side).rxQueue.items, Holds s act.side n rx →
      rx ∈ (s.boardAfter act).rxQueue.items ∨ waitsAt act.side.role n < k') :
    ∃ k', Advanced k s t k' (s.step act) := by
  have hne (x : Side) : x.other ≠ x := by cases x <;> nofun
  refine ⟨Function.update k act.side k', ⟨fun y => ?_, fun y => ?_, fun y n hn => ?_⟩, fun y => ?_,
    fun y n rx hrx hholds => ?_⟩ <;> by_cases hy : y = act.side
  · subst hy
    rw [Pair.step_self, hcfg]
    exact h.role _
  · rw [Pair.step_of_ne s act hy]
    exact h.role y
  · subst hy
    rw [Pair.step_self, hcfg, Function.update_self]
    exact hreached
  · rw [Pair.step_of_ne s act hy, Function.update_of_ne hy]
    exact h.reached y
  · subst hy
    rw [Function.update_self] at hn
    rw [Function.update_of_ne (hne _)]
    exact hreceived n hn
  · rw [Function.update_of_ne hy] at hn
    have hsent := h.received y n hn
    by_cases hy' : y.other = act.side
    · rw [hy'] at hsent ⊢
      rw [Function.update_self]
      exact hsent.trans_le hle
    · rwa [Function.update_of_ne hy']
  · subst hy
    rwa [Function.update_self]
  · rw [Function.update_of_ne hy]
  · subst hy
    rw [Pair.step_self, Function.update_self]
    exact hkept n rx hrx hholds
  · rw [Pair.step_of_ne s act hy]
    exact .inl hrx

theorem BothReached.stay (h : BothReached t k s) {act : Act L}
    (hcfg : (s.boardAfter act).cfg = (s act.side).cfg)
    (hdev : (s.boardAfter act).dev = (s act.side).dev)
    (hkept : ∀ n, ∀ rx ∈ (s act.side).rxQueue.items, Holds s act.side n rx →
      rx ∈ (s.boardAfter act).rxQueue.items ∨ waitsAt act.side.role n < k act.side) :
    ∃ k', Advanced k s t k' (s.step act) :=
  h.advance hcfg (by rw [hdev]; exact h.reached _) le_rfl (h.received _) hkept

theorem advanced_startCheck (hhonest : L.Honest) (h : BothReached t k s) (x : Side) (tick : UInt32)
    {env : Env L} (hesp : env.esp = .ok) :
    ∃ t' k', Advanced k s t' k' (s.step (.startCheck x tick env)) := by
  obtain ⟨t', h', hrng⟩ := h.draw_makeM1 hhonest x env.rng
  refine ⟨t', ?_⟩
  by_cases hpc : (s x).dev.pc = .loop
  · have hdev : (s.boardAfter (.startCheck x tick env)).dev =
        startCheck (s x).cfg env (s x).dev tick := if_pos hpc
    obtain ⟨k', hreached, hk⟩ := reached_startCheck hesp (h'.role x) (h'.reached x) hrng tick
    refine h'.advance rfl (hdev ▸ hreached) ?_ ?_ fun n rx hrx _ => .inl hrx
    · change k x ≤ k'
      omega
    · intro n hn
      rcases hk with rfl | ⟨hrole, -, rfl⟩
      · exact h'.received x n hn
      · change waitsAt x.role n < 1 at hn
        rw [hrole] at hn
        exact absurd hn (Nat.not_lt.mpr (Nat.succ_le_succ (Nat.zero_le _)))
  · exact h'.stay rfl (if_neg hpc) fun n rx hrx _ => .inl hrx

theorem advanced_delayOver (h : BothReached t k s) (x : Side) {env : Env L}
    (hesp : env.esp = .ok) : ∃ k', Advanced k s t k' (s.step (.delayOver x env)) := by
  have hreached := reached_afterDelay (s x).cfg hesp (h.reached x)
  refine h.advance rfl hreached ?_ ?_ fun n rx hrx _ => .inl hrx
  · change k x ≤ _
    split <;> omega
  · -- no frame is waited for during the delay
    intro n hn
    change waitsAt x.role n < _ at hn
    refine h.received x n ?_
    split at hn
    · next hk =>
      have hcases := slot_cases n
      have hne : waitsAt x.role n ≠ delayAt x.role := by
        cases x
        · change slot n + 1 ≠ 3
          omega
        · change slot n ≠ 2
          omega
      omega
    · exact hn

/-- The packets queued for `x` hold frames sent to `x`. -/
def Sourced (s : Pair L) : Prop := ∀ x, ∀ rx ∈ (s x).rxQueue.items, ∃ n, Holds s x n rx

/-- **A polled packet is the frame that the board waits for, or an earlier one.** -/
theorem advanced_poll (hhonest : L.Honest) (h : BothReached t k s) (hqueue : Sourced s) (x : Side)
    {env : Env L} (hesp : env.esp = .ok) :
    ∃ t' k', Advanced k s t' k' (s.step (.poll x env)) := by
  obtain ⟨t', h', hrng⟩ := h.draw_makeM2 hhonest x env.rng
  refine ⟨t', ?_⟩
  cases polled (s x) env with
  | idle hb =>
    exact h'.stay (congrArg Board.cfg hb) (congrArg Board.dev hb) fun n rx hrx _ =>
      .inl (by rw [show s.boardAfter (.poll x env) = s x from hb]; exact hrx)
  | rejected rx queue hpc hpop hmsg hb =>
    obtain ⟨m, hm⟩ := hqueue x rx (BoundedQueue.head_mem_of_pop hpop)
    obtain ⟨q, hq, -, rfl⟩ := h'.holds hm
    rw [parsedMsg_bytes hq] at hmsg
    cases hmsg
  | handled rx queue msg hpc hpop hmsg hb =>
    obtain ⟨m, hm⟩ := hqueue x rx (BoundedQueue.head_mem_of_pop hpop)
    obtain ⟨q, hq, hsent, hrx⟩ := h'.holds hm
    rw [hrx, parsedMsg_bytes hq] at hmsg
    cases hmsg
    have hcfg : (s.boardAfter (.poll x env)).cfg = (s x).cfg := (congrArg Board.cfg hb :)
    have hdev : (s.boardAfter (.poll x env)).dev =
        handleReceivedMessage (s x).cfg env (q.msg (s x.other).cfg.ownMac) (s x).dev :=
      congrArg Board.dev hb
    have hqueue' : (s.boardAfter (.poll x env)).rxQueue = queue := congrArg Board.rxQueue hb
    -- only the polled packet leaves the queue
    have hkept {k' : ℕ} (hlt : waitsAt x.role m < k') (n : ℕ) (rx' : RxPacket)
        (hrx' : rx' ∈ (s x).rxQueue.items) (hn : Holds s x n rx') :
        rx' ∈ (s.boardAfter (.poll x env)).rxQueue.items ∨ waitsAt x.role n < k' := by
      rw [hqueue']
      rcases (BoundedQueue.mem_iff_of_pop hpop).mp hrx' with rfl | hin
      · exact .inr (by rw [h'.holds_unique hn hm]; exact hlt)
      · exact .inl hin
    have hreached := h'.reached x
    rcases Nat.lt_or_eq_of_le (h'.waitsAt_le hpc hsent) with hlt | heq
    · -- an earlier frame
      exact h'.stay hcfg (hdev.trans (reached_stale (h'.role x) hreached hpc hq hlt _)) (hkept hlt)
    · rw [← heq] at hreached
      have hnext := reached_message hesp (h'.role x) hq hreached
        (fun hrole hm0 => hrng hrole (by rw [← heq, hrole, hm0]; rfl)) (s x.other).cfg.ownMac
      refine h'.advance hcfg (hdev ▸ hnext) (heq ▸ Nat.le_succ _) (fun n hn => ?_)
        (hkept (Nat.lt_succ_self _))
      rcases Nat.lt_succ_iff_lt_or_eq.mp hn with hlt | heq'
      · exact h'.received x n (heq ▸ hlt)
      · rwa [waitsAt_eq heq']

theorem advanced_deliver (h : BothReached t k s) (x : Side) (n : ℕ) :
    ∃ k', Advanced k s t k' (s.step (.deliver x n)) := by
  cases hf : (s x.other).dev.sentFrames[n]? with
  | none =>
    have hb : s.boardAfter (.deliver x n) = s x := by simp only [Pair.boardAfter, hf]
    exact h.stay (by rw [hb]; rfl) (by rw [hb]; rfl) fun m rx hrx _ => .inl (by rw [hb]; exact hrx)
  | some f =>
    have hb : s.boardAfter (.deliver x n) = (s x).arrive (s x.other).cfg.ownMac f.data := by
      simp only [Pair.boardAfter, hf]
    exact h.stay (by rw [hb]; rfl) (by rw [hb]; rfl) fun m rx hrx _ =>
      .inl (by rw [hb]; exact mem_espnowRecvCb_of_mem hrx)

theorem reached_step (hhonest : L.Honest) (h : BothReached t k s) (hqueue : Sourced s)
    {act : Act L} (hact : Undisturbed s act) : ∃ t' k', Advanced k s t' k' (s.step act) := by
  cases act with
  | startCheck x tick env => exact advanced_startCheck hhonest h x tick hact
  | poll x env => exact advanced_poll hhonest h hqueue x hact
  | delayOver x env => exact ⟨t, advanced_delayOver h x hact⟩
  | deliver x n => exact ⟨t, advanced_deliver h x n⟩
  | inject x src data => exact hact.elim

end Act

/-! ## The packets in the queues -/

section Queues

variable {s s' : Pair L} {x : Side} {n : ℕ} {rx : RxPacket}

theorem Holds.mono (h : Holds s x n rx) (hg : PairGrows s s') : Holds s' x n rx := by
  obtain ⟨data, hdata, rfl⟩ := h
  obtain ⟨hcfg, hgrows⟩ := hg x.other
  have hpre : (s x.other).dev.sentData <+: (s' x.other).dev.sentData :=
    (hgrows.trace.filterMap _).map _
  obtain ⟨rest, hrest⟩ := hpre
  refine ⟨data, ?_, by rw [hcfg]⟩
  rw [← hrest, List.getElem?_append_left (List.getElem?_eq_some_iff.mp hdata).1, hdata]

theorem sourced_step (hinv : PairInv s) (h : Sourced s) {act : Act L} (hact : Undisturbed s act) :
    Sourced (s.step act) := by
  have hg := (pair_step hinv act).2
  intro x rx hrx
  by_cases hx : x = act.side
  · subst hx
    rw [Pair.step_self] at hrx
    have hold (hin : rx ∈ (s act.side).rxQueue.items) : ∃ n, Holds (s.step act) act.side n rx :=
      let ⟨n, hn⟩ := h _ rx hin
      ⟨n, hn.mono hg⟩
    cases act with
    | startCheck x tick env => exact hold hrx
    | delayOver x env => exact hold hrx
    | poll x env => exact hold (mem_poll hrx)
    | inject x src data => exact hact.elim
    | deliver x n =>
      simp only [Pair.boardAfter] at hrx
      split at hrx
      · exact hold hrx
      · next f hf =>
        rcases mem_arrive hrx with hin | rfl
        · exact hold hin
        · refine ⟨n, Holds.mono ⟨f.data, ?_, rfl⟩ hg⟩
          rw [Device.sentData, List.getElem?_map]
          exact congrArg (Option.map SentFrame.data) hf
  · rw [Pair.step_of_ne s act hx] at hrx
    obtain ⟨n, hn⟩ := h x rx hrx
    exact ⟨n, hn.mono hg⟩

theorem queued_of_delivered {t : Transcript L} {k : Side → ℕ} (hinv : PairInv s)
    (h : BothReached t k s) (hn : n < (s x.other).dev.sentFrames.length)
    (hroom : ¬ (s x).rxQueue.Full) :
    ∃ rx ∈ (s.step (.deliver x n) x).rxQueue.items, Holds (s.step (.deliver x n)) x n rx := by
  have hf := List.getElem?_eq_getElem hn
  have hb : s.boardAfter (.deliver x n) = (s x).arrive (s x.other).cfg.ownMac
      (s x.other).dev.sentFrames[n].data := by
    simp only [Pair.boardAfter, hf]
  have hdata : (s x.other).dev.sentData[n]? = some (s x.other).dev.sentFrames[n].data := by
    rw [Device.sentData, List.getElem?_map, hf, Option.map_some]
  refine ⟨_, ?_, Holds.mono ⟨_, hdata, rfl⟩ (pair_step hinv _).2⟩
  obtain ⟨q, hq, -, heq⟩ := h.sent hdata
  obtain ⟨hpos, hle⟩ := length_bytes hq
  rw [← heq] at hpos hle
  have hself : s.step (.deliver x n) x = s.boardAfter (.deliver x n) := s.step_self (.deliver x n)
  rw [hself, hb, Board.arrive, espnowRecvCb_eq_push _ hpos hle]
  exact BoundedQueue.mem_push_self hroom

end Queues

/-! ## Runs -/

/-- A run without loss: what is queued, how far the boards are, and that a frame that was delivered
is still queued or behind its receiver. -/
structure Lossless (s₀ : Pair L) (acts : List (Act L)) (s : Pair L) : Prop where
  eq_run : s = run Pair.step s₀ acts
  sourced : Sourced s
  both : ∃ t k, BothReached t k s ∧ ∀ x n, Delivered s₀ acts x n →
    (∃ rx ∈ (s x).rxQueue.items, Holds s x n rx) ∨ waitsAt x.role n < k x

section Run

variable {s₀ : Pair L}

theorem lossless_booted (hhonest : L.Honest) (hboot : ∀ x, (s₀ x).Booted)
    (hmut : Mutual (s₀ .a).cfg (s₀ .b).cfg) : Lossless s₀ [] s₀ := by
  obtain ⟨hqa, enva, _, _, ha⟩ := hboot .a
  obtain ⟨hqb, envb, _, _, hb⟩ := hboot .b
  have hempty (x : Side) : (s₀ x).rxQueue.items = [] := by
    cases x
    · rw [hqa]; rfl
    · rw [hqb]; rfl
  obtain ⟨t, hbootI, -, hbootR, -⟩ := hhonest enva.rng enva.rng envb.rng envb.rng
  refine ⟨rfl, fun x rx hrx => ?_, t, fun _ => 0, ⟨?_, ?_, ?_⟩, ?_⟩
  · rw [hempty] at hrx
    cases hrx
  · rintro (_ | _)
    · exact hmut.initiator
    · exact hmut.responder
  · rintro (_ | _)
    · have hr := reached_boot ha (by rw [hmut.initiator]; exact hbootI)
      rwa [hmut.initiator] at hr
    · have hr := reached_boot hb (by rw [hmut.responder]; exact hbootR)
      rwa [hmut.responder] at hr
  · exact fun x n hn => absurd hn (Nat.not_lt_zero _)
  · rintro x n ⟨before, after, heq, -⟩
    cases before <;> cases heq

theorem lossless_step (hhonest : L.Honest) (hboot : ∀ x, (s₀ x).Booted) (acts : List (Act L))
    (s : Pair L) (act : Act L) (h : Lossless s₀ acts s) (hact : Undisturbed s act) :
    Lossless s₀ (acts ++ [act]) (s.step act) := by
  have hinv := inv_pair hboot acts
  rw [← h.eq_run] at hinv
  obtain ⟨t, k, hboth, hdel⟩ := h.both
  obtain ⟨t', k', hadv⟩ := reached_step hhonest hboth h.sourced hact
  refine ⟨?_, sourced_step hinv h.sourced hact, t', k', hadv.both, fun x n hn => ?_⟩
  · rw [h.eq_run, run_concat]
  · rcases delivered_concat hn with hn | ⟨rfl, hn, hroom⟩
    · rcases hdel x n hn with ⟨rx, hrx, hholds⟩ | hlt
      · exact (hadv.kept x n rx hrx hholds).imp_left fun hrx =>
          ⟨rx, hrx, hholds.mono (pair_step hinv act).2⟩
      · exact .inr (hlt.trans_le (hadv.le x))
    · rw [← h.eq_run] at hn hroom
      exact .inl (queued_of_delivered hinv hboth hn hroom)

theorem lossless_run (hhonest : L.Honest) (hboot : ∀ x, (s₀ x).Booted)
    (hmut : Mutual (s₀ .a).cfg (s₀ .b).cfg) {acts : List (Act L)}
    (h : Allowed Pair.step Undisturbed s₀ acts) : Lossless s₀ acts (run Pair.step s₀ acts) :=
  run_hist_inv (lossless_booted hhonest hboot hmut)
    (fun as s act hs hact => lossless_step hhonest hboot as s act hs hact) h

theorem lmk_of_complete {cfg : Config} {d : Device L} {done : L.Done} (h : Inv cfg d)
    (hs : d.state = .complete) (hdone : d.session.done? = some done) :
    d.lmk? cfg = some (cfg.lmkToInstall (exportLmk done cfg.exporterContext)) := by
  obtain ⟨lmk, hlmk⟩ := Option.isSome_iff_exists.mp (h.encrypted (.inr (.inr hs)))
  obtain ⟨done', hdone', heq⟩ := h.at_ahead.lmk_eq lmk hlmk
  rw [hdone, Option.some.injEq] at hdone'
  rw [hlmk, heq, hdone']

theorem last_of_quiescent {t : Transcript L} {k : Side → ℕ} {s : Pair L} (h : BothReached t k s)
    (hstart : (s .a).dev.initiatorStarted = true) (hloop : (s .a).dev.pc = .loop)
    (hpassed : ∀ x n, n < (s x.other).dev.sentFrames.length → waitsAt x.role n < k x) :
    5 ≤ k .a ∧ 4 ≤ k .b := by
  -- a frame that has been sent has been passed
  have hnext (x : Side) (n : ℕ) (hn : n < 3) (hsent : slot n < k x.other) :
      waitsAt x.role n < k x := by
    refine hpassed x n ?_
    rw [(h.reached x.other).length_sentFrames]
    exact lt_min ((lt_sentBefore hn).mpr hsent) hn
  have hstarted := (h.reached .a).started.symm.trans hstart
  have hpc := (h.reached .a).pc.symm.trans hloop
  have h0 : k .a ≠ 0 := fun hk => by rw [hk] at hstarted; cases hstarted
  have h3 : k .a ≠ 3 := fun hk => by rw [hk] at hpc; cases hpc
  have hm1 : 0 < k .a → 0 < k .b := hnext .b 0 (by decide)
  have hm2 : 0 < k .b → 1 < k .a := hnext .a 0 (by decide)
  have hm3 : 1 < k .a → 1 < k .b := hnext .b 1 (by decide)
  have hack : 1 < k .b → 2 < k .a := hnext .a 1 (by decide)
  have htest : 3 < k .a → 3 < k .b := hnext .b 2 (by decide)
  have htestAck : 3 < k .b → 4 < k .a := hnext .a 2 (by decide)
  omega

/-- **No stuck run without loss.** An initiator and a responder are configured for each other and
boot, Lakers succeeds on every honestly produced message, and every driver call succeeds. On every
schedule on which nothing but the boards' own frames arrives, delayed, duplicated and reordered in
any way, no board ever fails or halts; and where nothing is left to do after the initiator has
started, both boards are complete and have the same LMK installed. -/
theorem no_stuck_run {Prk : Type} (prkOut : L.Done → Prk) (hhonest : L.Honest)
    (hprk : ∀ t : Transcript L, prkOut t.doneI = prkOut t.doneR)
    (hexp : ∀ done done', prkOut done = prkOut done' → L.edhocExporter done = L.edhocExporter done')
    {s₀ : Pair L} (hboot : ∀ x, (s₀ x).Booted) (hmut : Mutual (s₀ .a).cfg (s₀ .b).cfg)
    {acts : List (Act L)} (h : Allowed Pair.step Undisturbed s₀ acts) :
    let s := run Pair.step s₀ acts
    (∀ x, (s x).dev.state ≠ .failed ∧ (s x).dev.pc ≠ .halted) ∧
    ((s .a).dev.initiatorStarted = true → Quiescent s₀ acts →
      ∃ lmk, ∀ x, (s x).dev.state = .complete ∧ (s x).dev.lmk? (s x).cfg = some lmk) := by
  intro s
  obtain ⟨-, -, t, k, hboth, hdel⟩ := lossless_run hhonest hboot hmut h
  have hinv := inv_pair hboot acts
  refine ⟨fun x => ?_, fun hstart hq => ?_⟩
  · rw [(hboth.reached x).state, (hboth.reached x).pc]
    exact controlAt_alive x.role (k x)
  -- both boards have passed every frame
  obtain ⟨hka, hkb⟩ := last_of_quiescent hboth hstart (hq.loop .a) fun x n hn => by
    refine (hdel x n (hq.delivered x n hn)).resolve_left ?_
    rintro ⟨rx, hrx, -⟩
    rw [hq.emptied x] at hrx
    cases hrx
  have ha := hboth.reached .a
  have hb := hboth.reached .b
  obtain ⟨hstateI, hdoneI⟩ := ha.last_initiator hka
  obtain ⟨hstateR, hdoneR⟩ := hb.last_responder hkb
  have hgrows := grows_pair (fun x => inv_booted (hboot x)) acts
  have hmut' : Mutual (s .a).cfg (s .b).cfg := by rwa [(hgrows .a).1, (hgrows .b).1]
  have hlmkI := lmk_of_complete (hinv .a) hstateI hdoneI
  have hlmkR := lmk_of_complete (hinv .b) hstateR hdoneR
  rw [(hmut'.lmkToInstall _).1] at hlmkI
  rw [(hmut'.lmkToInstall _).2, exportLmk, ← hexp _ _ (hprk t), ← hmut'.exporterContext] at hlmkR
  refine ⟨exportLmk t.doneI (s .a).cfg.exporterContext, fun x => ?_⟩
  cases x with
  | a => exact ⟨hstateI, hlmkI⟩
  | b => exact ⟨hstateR, hlmkR⟩

end Run

theorem delivered_sample (x : Side) {n : ℕ} (hn : n < 3) :
    Delivered Pair.sample sampleActs x n := by
  have hat (i : ℕ) (hi : sampleActs = sampleActs.take i ++ .deliver x n :: sampleActs.drop (i + 1))
      (hsent : n < (run Pair.step Pair.sample (sampleActs.take i) x.other).dev.sentFrames.length)
      (hroom : ¬ (run Pair.step Pair.sample (sampleActs.take i) x).rxQueue.Full) :
      Delivered Pair.sample sampleActs x n := ⟨_, _, hi, hsent, hroom⟩
  match x, n, hn with
  | .b, 0, _ => exact hat 1 rfl (by decide) (by decide)
  | .a, 0, _ => exact hat 3 rfl (by decide) (by decide)
  | .b, 1, _ => exact hat 5 rfl (by decide) (by decide)
  | .a, 1, _ => exact hat 8 rfl (by decide) (by decide)
  | .b, 2, _ => exact hat 11 rfl (by decide) (by decide)
  | .a, 2, _ => exact hat 13 rfl (by decide) (by decide)

theorem quiescent_sample : Quiescent Pair.sample sampleActs where
  delivered x n hn := by
    have hlen : (run Pair.step Pair.sample sampleActs x.other).dev.sentFrames.length = 3 := by
      cases x <;> decide
    exact delivered_sample x (hlen ▸ hn)
  emptied x := by
    cases x <;> exact List.eq_nil_of_length_eq_zero (by decide)
  loop x := by cases x <;> decide

theorem no_stuck_run_sample :
    ∃ lmk, ∀ x, (run Pair.step Pair.sample sampleActs x).dev.state = .complete ∧
      (run Pair.step Pair.sample sampleActs x).dev.lmk?
        (run Pair.step Pair.sample sampleActs x).cfg = some lmk :=
  (no_stuck_run (fun done => done) Lakers.honest_sample Transcript.doneI_sample
    (fun _ _ => congrArg _)
    booted_sample (by decide) (by simp [Allowed, sampleActs, Undisturbed, Env.sample])).2
    (by decide) quiescent_sample

end EspNowEdhoc
