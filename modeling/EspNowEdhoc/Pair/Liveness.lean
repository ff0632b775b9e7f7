import EspNowEdhoc.Lib.Paths
import EspNowEdhoc.Pair.Timing

/-!
# Every fair run completes

* `Pair.position`: how far a board is, from its pairing state and the place of its task.
* `FairRun`: an endless run without loss in which the tasks go on and every frame is queued once.
* `BothReached.waiting`: what is left to do; `leaves_boot`, `leaves_delay`, **`leaves_wait`**: it is
  done at some time.
* **`fair_run_completes`**: both boards come to `COMPLETE` with one LMK, and stay there.
-/

set_option autoImplicit false

namespace EspNowEdhoc

open Runs

variable {L : Lakers}

/-! ## Positions -/

/-- How far a board is. -/
def position : Role → PairingState → Pc → ℕ
  | .initiator, .waitM2, _ => 1
  | .initiator, .waitEdhocAck, _ => 2
  | .initiator, .waitKeyTestAck, .keyTestDelay _ => 3
  | .initiator, .waitKeyTestAck, _ => 4
  | .initiator, .complete, _ => 5
  | .responder, .waitM3, .loop => 1
  | .responder, .waitM3, _ => 2
  | .responder, .waitKeyTest, _ => 3
  | .responder, .complete, _ => 4
  | _, _, _ => 0

/-- The last position of a role. -/
def lastPosition : Role → ℕ
  | .initiator => 5
  | .responder => 4

theorem position_controlAt (role : Role) (k : ℕ) :
    position role (controlAt role k).1 (controlAt role k).2.2 = min k (lastPosition role) := by
  cases role with
  | initiator =>
    rcases k with _ | _ | _ | _ | _ | k
    case succ.succ.succ.succ.succ => exact (Nat.min_eq_right (Nat.le_add_left 5 k)).symm
    all_goals rfl
  | responder =>
    rcases k with _ | _ | _ | _ | k
    case succ.succ.succ.succ => exact (Nat.min_eq_right (Nat.le_add_left 4 k)).symm
    all_goals rfl

/-- How far the board of `x` is. -/
def Pair.position (s : Pair L) (x : Side) : ℕ :=
  EspNowEdhoc.position x.role (s x).dev.state (s x).dev.pc

theorem Reached.position_eq {role : Role} {ctx : ExporterContext} {t : Transcript L} {k : ℕ}
    {d : Device L} (h : Reached role ctx t k d) :
    position role d.state d.pc = min k (lastPosition role) := by
  rw [h.state, h.pc, position_controlAt]

section Acts

variable {t t' : Transcript L} {k k' : Side → ℕ} {s : Pair L} {x : Side} {env : Env L}

theorem BothReached.position_eq (h : BothReached t k s) (x : Side) :
    s.position x = min (k x) (lastPosition x.role) := (h.reached x).position_eq

theorem BothReached.eq_position (h : BothReached t k s) (hlt : s.position x < lastPosition x.role) :
    k x = s.position x := by
  rw [h.position_eq] at hlt ⊢
  omega

theorem waitsAt_lt_last (role : Role) {n : ℕ} (hn : n < 3) :
    waitsAt role n < lastPosition role := by
  rcases n with _ | _ | _ | n <;> cases role <;> first | decide | omega

theorem waitsAt_ne_delayAt (role : Role) (n : ℕ) : waitsAt role n ≠ delayAt role := by
  rcases n with _ | _ | n <;> cases role <;> nofun

theorem delayAt_lt_last (role : Role) : delayAt role < lastPosition role := by cases role <;> decide

theorem BothReached.waits (h : BothReached t k s) {i : ℕ} (hi : i < 3)
    (hpos : s.position x = waitsAt x.role i) :
    k x = waitsAt x.role i ∧ (s x).dev.pc = .loop := by
  have hk : k x = waitsAt x.role i := by
    rw [← hpos]
    exact h.eq_position (hpos ▸ waitsAt_lt_last x.role hi)
  refine ⟨hk, ?_⟩
  rw [(h.reached x).pc, hk]
  exact controlAt_pc (waitsAt_ne_delayAt x.role i)

theorem position_delayOver (h : BothReached t k s) (hesp : env.esp = .ok)
    (hk : k x = delayAt x.role) : s.position x < (s.step (.delayOver x env)).position x := by
  have hreached := reached_afterDelay (s x).cfg hesp (h.reached x)
  rw [if_pos hk] at hreached
  have hlt := delayAt_lt_last x.role
  have hdev : (s.step (.delayOver x env) x).dev = afterDelay (s x).cfg env (s x).dev :=
    congrArg Board.dev (s.step_self (.delayOver x env))
  rw [h.position_eq, Pair.position, hdev, hreached.position_eq]
  omega

theorem position_start (hhonest : L.Honest) (h : BothReached t k s) (hesp : env.esp = .ok)
    (hk : k .a = 0) {tick : UInt32}
    (htick : tick - (s .a).dev.bootTick ≥ pdMsToTicks (s .a).cfg.tickRateHz edhocStartDelayMs) :
    0 < (s.step (.startCheck .a tick env)).position .a := by
  obtain ⟨t', h', hrng⟩ := h.draw_makeM1 hhonest .a env.rng
  have hreached := h'.reached .a
  rw [hk] at hreached
  have hpc : (s .a).dev.pc = .loop := hreached.pc
  have hstarted := reached_start hesp (h.role .a) hreached (hrng rfl hk) htick
  have hdev : (s.step (.startCheck .a tick env) .a).dev =
      startCheck (s .a).cfg env (s .a).dev tick :=
    (congrArg Board.dev (s.step_self (.startCheck .a tick env))).trans (if_pos hpc)
  change 0 < EspNowEdhoc.position .initiator _ _
  rw [hdev, hstarted.position_eq]
  decide

theorem position_poll (hhonest : L.Honest) (h : BothReached t k s) (hesp : env.esp = .ok)
    (hpc : (s x).dev.pc = .loop) {n : ℕ} {rx : RxPacket} (hn : Holds s x n rx)
    (hk : k x = waitsAt x.role n) {rest : List RxPacket}
    (hqueue : (s x).rxQueue.items = rx :: rest) :
    s.position x < (s.step (.poll x env)).position x := by
  obtain ⟨t', h', hrng⟩ := h.draw_makeM2 hhonest x env.rng
  obtain ⟨q, hq, -, rfl⟩ := h'.holds hn
  have hlt := waitsAt_lt_last x.role (lt_three hq)
  have hself : s.step (.poll x env) x = (s x).poll env := s.step_self (.poll x env)
  cases polled (s x) env with
  | idle _ hempty =>
    rw [hempty hpc] at hqueue
    cases hqueue
  | rejected rx queue _ hpop hmsg _ =>
    rw [BoundedQueue.pop_eq_some hpop] at hqueue
    obtain ⟨rfl, -⟩ := List.cons.inj hqueue
    rw [parsedMsg_bytes hq] at hmsg
    cases hmsg
  | handled rx queue msg _ hpop hmsg hb =>
    rw [BoundedQueue.pop_eq_some hpop] at hqueue
    obtain ⟨rfl, -⟩ := List.cons.inj hqueue
    rw [parsedMsg_bytes hq] at hmsg
    cases hmsg
    have hreached := h'.reached x
    rw [hk] at hreached
    have hnext := reached_message hesp (h'.role x) hq hreached
      (fun hrole hn0 => hrng hrole (by rw [hk, hrole, hn0]; rfl)) (s x.other).cfg.ownMac
    rw [h.position_eq, Pair.position, hself, hb, hnext.position_eq]
    omega

end Acts

/-! ## Fair runs -/

/-- An endless run without loss, in which the tasks of both boards go on, the initiator finds its
start delay over at some time, and each frame that is sent is put into the receiver's queue once. -/
structure FairRun (s₀ : Pair L) (acts : ℕ → Act L) : Prop where
  undisturbed : ∀ n, Undisturbed (trail Pair.step s₀ acts n) (acts n)
  started : ∃ n tick env, acts n = .startCheck .a tick env ∧
    tick - (trail Pair.step s₀ acts n .a).dev.bootTick ≥
      pdMsToTicks (trail Pair.step s₀ acts n .a).cfg.tickRateHz edhocStartDelayMs
  polled : ∀ x n, ∃ m, n ≤ m ∧ ∃ env, acts m = .poll x env
  delayOver : ∀ x n, (trail Pair.step s₀ acts n x).dev.pc ≠ .loop →
    ∃ m, n ≤ m ∧ ∃ env, acts m = .delayOver x env
  delivered : ∀ x i n, i < (trail Pair.step s₀ acts n x.other).dev.sentFrames.length →
    ∃ m, Delivered s₀ ((List.range m).map acts) x i

/-! ### What a board is waiting for -/

section Waiting

variable {t : Transcript L} {k : Side → ℕ} {s : Pair L} {x : Side} {act : Act L}

theorem BothReached.slot_lt (h : BothReached t k s) {i : ℕ}
    (hi : i < (s x.other).dev.sentFrames.length) : i < 3 ∧ slot i < k x.other := by
  rw [(h.reached x.other).length_sentFrames, lt_min_iff] at hi
  exact ⟨hi.2, (lt_sentBefore hi.2).mp hi.1⟩

/-- **What is left to do.** Unless both boards are at their last positions, the initiator has not
started, or a board is in its delay or at a position where it waits for a frame that was sent. -/
theorem BothReached.waiting (h : BothReached t k s) (hnot : ¬ (5 ≤ k .a ∧ 4 ≤ k .b)) :
    k .a = 0 ∨ (∃ x, k x = delayAt x.role) ∨
      ∃ x i, i < (s x.other).dev.sentFrames.length ∧ k x = waitsAt x.role i := by
  by_contra hno
  obtain ⟨h0, hdelay, hwait⟩ : k .a ≠ 0 ∧ (∀ x, k x ≠ delayAt x.role) ∧
      ∀ x i, i < (s x.other).dev.sentFrames.length → k x ≠ waitsAt x.role i := by
    push Not at hno
    exact hno
  have hloop (x : Side) : (s x).dev.pc = .loop := (h.reached x).pc.trans (controlAt_pc (hdelay x))
  have hstarted : (s .a).dev.initiatorStarted = true := by
    by_contra hne
    rw [Bool.not_eq_true, (h.reached .a).started] at hne
    exact h0 (eq_zero_of_not_started hne)
  refine hnot (last_of_quiescent h hstarted (hloop .a) fun x i hi => ?_)
  have hle := h.waitsAt_le (hloop x) (h.slot_lt hi).2
  exact lt_of_le_of_ne hle fun heq => hwait x i hi heq.symm

theorem prefix_arrive (b : Board L) (src : Mac) (data : List UInt8) :
    b.rxQueue.items <+: (b.arrive src data).rxQueue.items := by
  simp only [Board.arrive, espnowRecvCb]
  split
  · exact List.prefix_rfl
  split
  · exact List.prefix_rfl
  · exact BoundedQueue.prefix_push ..

theorem queue_prefix (hact : ¬ ∃ env, act = .poll x env) :
    (s x).rxQueue.items <+: (s.step act x).rxQueue.items := by
  by_cases hx : x = act.side
  · subst hx
    rw [Pair.step_self]
    cases act with
    | poll x env => exact absurd ⟨env, rfl⟩ hact
    | startCheck | delayOver => exact List.prefix_rfl
    | inject x src data => exact prefix_arrive ..
    | deliver x n =>
      simp only [Pair.boardAfter]
      split
      · exact List.prefix_rfl
      · exact prefix_arrive ..
  · rw [Pair.step_of_ne s act hx]

theorem queue_poll (hpc : (s x).dev.pc = .loop) {env : Env L} {rx : RxPacket}
    {rest : List RxPacket} (hqueue : (s x).rxQueue.items = rx :: rest) :
    (s.step (.poll x env) x).rxQueue.items = rest := by
  have hself : s.step (.poll x env) x = (s x).poll env := s.step_self (.poll x env)
  rw [hself]
  cases polled (s x) env with
  | idle _ hempty =>
    rw [hempty hpc] at hqueue
    cases hqueue
  | rejected rx' queue _ hpop _ hb | handled rx' queue _ _ hpop _ hb =>
    rw [BoundedQueue.pop_eq_some hpop] at hqueue
    rw [hb]
    exact (List.cons.inj hqueue).2

end Waiting

/-! ### Along a fair run -/

section Run

variable {s₀ : Pair L} {acts : ℕ → Act L} {x : Side} {m n : ℕ}

theorem delivered_of_le {i : ℕ} (hle : m ≤ n) (h : Delivered s₀ ((List.range m).map acts) x i) :
    Delivered s₀ ((List.range n).map acts) x i := by
  induction n, hle using Nat.le_induction with
  | base => exact h
  | succ n _ ih =>
    obtain ⟨before, after, heq, hsent, hroom⟩ := ih
    exact ⟨before, after ++ [acts n], by rw [range_map_succ, heq, List.append_assoc]; rfl, hsent,
      hroom⟩

theorem grows_trail (acts : ℕ → Act L) (hboot : ∀ x, (s₀ x).Booted) (hle : m ≤ n) :
    PairGrows (trail Pair.step s₀ acts m) (trail Pair.step s₀ acts n) := by
  induction n, hle using Nat.le_induction with
  | base => exact .refl _
  | succ n _ ih =>
    rw [trail_succ]
    exact ih.trans (pair_step (inv_pair hboot _) (acts n)).2

variable (hhonest : L.Honest) (hboot : ∀ x, (s₀ x).Booted) (hmut : Mutual (s₀ .a).cfg (s₀ .b).cfg)
  (h : FairRun s₀ acts)

include hhonest hboot hmut h

theorem lossless_trail (n : ℕ) :
    Lossless s₀ ((List.range n).map acts) (trail Pair.step s₀ acts n) :=
  lossless_run hhonest hboot hmut (allowed_trail h.undisturbed n)

theorem monotone_position (x : Side) :
    Monotone fun n => (trail Pair.step s₀ acts n).position x := by
  refine monotone_nat_of_le_succ fun n => ?_
  have hlossless := lossless_trail hhonest hboot hmut h n
  obtain ⟨t, k, hboth, -⟩ := hlossless.both
  obtain ⟨t', k', hadv⟩ := reached_step hhonest hboth hlossless.sourced (h.undisturbed n)
  rw [trail_succ, hboth.position_eq, hadv.both.position_eq]
  exact min_le_min_right _ (hadv.le x)

theorem leaves_boot (n : ℕ) : ∃ m, n ≤ m ∧ 0 < (trail Pair.step s₀ acts m).position .a := by
  obtain ⟨m, tick, env, hact, htick⟩ := h.started
  have hmono := monotone_position hhonest hboot hmut h .a
  suffices hnext : 0 < (trail Pair.step s₀ acts (m + 1)).position .a from
    ⟨max n (m + 1), le_max_left .., hnext.trans_le (hmono (le_max_right ..))⟩
  rcases Nat.eq_zero_or_pos ((trail Pair.step s₀ acts m).position .a) with hzero | hpos'
  · obtain ⟨t, k, hboth, -⟩ := (lossless_trail hhonest hboot hmut h m).both
    have hk := hboth.eq_position (x := .a) (by rw [hzero]; decide)
    have hesp := h.undisturbed m
    rw [hact] at hesp
    rw [trail_succ, hact]
    exact position_start hhonest hboth hesp (hk.trans hzero) htick
  · exact hpos'.trans_le (hmono (Nat.le_succ m))

theorem leaves_delay (hpos : (trail Pair.step s₀ acts n).position x = delayAt x.role) :
    ∃ m, n ≤ m ∧
      (trail Pair.step s₀ acts n).position x < (trail Pair.step s₀ acts m).position x := by
  obtain ⟨t, k, hboth, -⟩ := (lossless_trail hhonest hboot hmut h n).both
  have hmono := monotone_position hhonest hboot hmut h x
  have hlast := delayAt_lt_last x.role
  have hk := hboth.eq_position (hpos ▸ hlast)
  have hpc : (trail Pair.step s₀ acts n x).dev.pc ≠ .loop := by
    rw [(hboth.reached x).pc, hk, hpos]
    cases x <;> nofun
  obtain ⟨m, hle, env, hact⟩ := h.delayOver x n hpc
  rcases Nat.eq_or_lt_of_le (hmono hle) with heq | hlt
  · obtain ⟨t, k, hboth, -⟩ := (lossless_trail hhonest hboot hmut h m).both
    have hpos' := heq.symm.trans hpos
    have hk := hboth.eq_position (hpos' ▸ hlast)
    have hesp := h.undisturbed m
    rw [hact] at hesp
    refine ⟨m + 1, hle.trans (Nat.le_succ m), heq.trans_lt ?_⟩
    rw [trail_succ, hact]
    exact position_delayOver hboth hesp (hk.trans hpos')
  · exact ⟨m, hle, hlt⟩

/-- While a board waits for a frame, every packet in its queue comes to be polled. -/
theorem comes_to_head {i : ℕ} (hi : i < 3)
    (hpos : ∀ m, n ≤ m → (trail Pair.step s₀ acts m).position x = waitsAt x.role i) {rx : RxPacket}
    (hrx : rx ∈ (trail Pair.step s₀ acts n x).rxQueue.items) :
    ∃ m, n ≤ m ∧ (∃ env, acts m = .poll x env) ∧
      ∃ rest, (trail Pair.step s₀ acts m x).rxQueue.items = rx :: rest := by
  refine reaches_head (fun m => (trail Pair.step s₀ acts m x).rxQueue.items)
    (fun m _ hnot => ?_) (h.polled x) (fun m hm hpoll p rest heq => ?_) hrx
  · rw [trail_succ]
    exact queue_prefix hnot
  · obtain ⟨env, hact⟩ := hpoll
    obtain ⟨t, k, hboth, -⟩ := (lossless_trail hhonest hboot hmut h m).both
    rw [trail_succ, hact]
    exact queue_poll (hboth.waits hi (hpos m hm)).2 heq

/-- **A frame that a board waits for is handled**, once it is sent. -/
theorem leaves_wait {i : ℕ} (hpos : (trail Pair.step s₀ acts n).position x = waitsAt x.role i)
    (hi : i < (trail Pair.step s₀ acts n x.other).dev.sentFrames.length) :
    ∃ m, n ≤ m ∧
      (trail Pair.step s₀ acts n).position x < (trail Pair.step s₀ acts m).position x := by
  by_contra hno
  have hsame (m : ℕ) (hm : n ≤ m) :
      (trail Pair.step s₀ acts m).position x = waitsAt x.role i := by
    refine le_antisymm ?_ (hpos ▸ monotone_position hhonest hboot hmut h x hm)
    rw [← hpos]
    exact Nat.le_of_not_lt fun hlt => hno ⟨m, hm, hlt⟩
  have hlt3 : i < 3 := by
    obtain ⟨t, k, hboth, -⟩ := (lossless_trail hhonest hboot hmut h n).both
    exact (hboth.slot_lt hi).1
  -- the frame is in the queue at some time
  obtain ⟨m, hdel⟩ := h.delivered x i n hi
  have hstart : n ≤ max n m := le_max_left ..
  obtain ⟨t, k, hboth, hqueued⟩ := (lossless_trail hhonest hboot hmut h (max n m)).both
  obtain ⟨rx, hrx, hholds⟩ := (hqueued x i (delivered_of_le (le_max_right ..) hdel)).resolve_right
    (by rw [(hboth.waits hlt3 (hsame _ hstart)).1]; exact lt_irrefl _)
  -- and later it is polled
  obtain ⟨l, hl, ⟨env, hact⟩, rest, hhead⟩ := comes_to_head hhonest hboot hmut h hlt3
    (fun m hm => hsame m (hstart.trans hm)) hrx
  obtain ⟨t, k, hboth, -⟩ := (lossless_trail hhonest hboot hmut h l).both
  have hle := hstart.trans hl
  obtain ⟨hk, hpc⟩ := hboth.waits hlt3 (hsame l hle)
  have hesp := h.undisturbed l
  rw [hact] at hesp
  have hstep := position_poll hhonest hboth hesp hpc (hholds.mono (grows_trail acts hboot hl)) hk
    hhead
  rw [← hact, ← trail_succ Pair.step s₀ acts l, hsame l hle,
    hsame (l + 1) (hle.trans (Nat.le_succ l))] at hstep
  exact lt_irrefl _ hstep

/-- **As long as the boards are not at their last positions, one of them will go on.** -/
theorem goes_on (hlt : (trail Pair.step s₀ acts n).position .a +
      (trail Pair.step s₀ acts n).position .b < 9) :
    ∃ x m, n ≤ m ∧
      (trail Pair.step s₀ acts n).position x < (trail Pair.step s₀ acts m).position x := by
  obtain ⟨t, k, hboth, -⟩ := (lossless_trail hhonest hboot hmut h n).both
  have hnot : ¬ (5 ≤ k .a ∧ 4 ≤ k .b) := by
    rw [hboth.position_eq, hboth.position_eq] at hlt
    simp only [Side.role, lastPosition] at hlt
    omega
  have hpos (x : Side) (hx : k x < lastPosition x.role) :
      (trail Pair.step s₀ acts n).position x = k x := by
    rw [hboth.position_eq]
    exact Nat.min_eq_left hx.le
  rcases hboth.waiting hnot with hk | ⟨x, hk⟩ | ⟨x, i, hi, hk⟩
  · obtain ⟨m, hm, hstarted⟩ := leaves_boot hhonest hboot hmut h n
    refine ⟨.a, m, hm, ?_⟩
    rw [hpos .a (by rw [hk]; decide), hk]
    exact hstarted
  · exact ⟨x, leaves_delay hhonest hboot hmut h
      ((hpos x (hk ▸ delayAt_lt_last x.role)).trans hk)⟩
  · exact ⟨x, leaves_wait hhonest hboot hmut h
      ((hpos x (hk ▸ waitsAt_lt_last x.role (hboth.slot_lt hi).1)).trans hk) hi⟩

theorem eventually_last : ∃ start, ∀ n, start ≤ n → ∃ t k,
    BothReached t k (trail Pair.step s₀ acts n) ∧ 5 ≤ k .a ∧ 4 ≤ k .b := by
  have hmono (x : Side) := monotone_position hhonest hboot hmut h x
  obtain ⟨start, hstart⟩ := eventually_of_growing 9 ((hmono .a).add (hmono .b))
    fun n hlt => by
      obtain ⟨x, m, hm, hx⟩ := goes_on hhonest hboot hmut h hlt
      refine ⟨m, ?_⟩
      cases x with
      | a => exact Nat.add_lt_add_of_lt_of_le hx (hmono .b hm)
      | b => exact Nat.add_lt_add_of_le_of_lt (hmono .a hm) hx
  refine ⟨start, fun n hn => ?_⟩
  obtain ⟨t, k, hboth, -⟩ := (lossless_trail hhonest hboot hmut h n).both
  have hlast := hstart n hn
  change 9 ≤ (trail Pair.step s₀ acts n).position .a + (trail Pair.step s₀ acts n).position .b
    at hlast
  rw [hboth.position_eq, hboth.position_eq] at hlast
  simp only [Side.role, lastPosition] at hlast
  exact ⟨t, k, hboth, by omega, by omega⟩

end Run

/-- **Every fair run completes.** An initiator and a responder are configured for each other and
boot, Lakers succeeds on every honestly produced message, and every driver call succeeds. In every
endless run in which both tasks go on, the initiator once finds its start delay over, and each frame
that is sent is put into the receiver's queue once (late, repeated and out of order as may be), both
boards come to `COMPLETE` with one LMK installed, and stay there. -/
theorem fair_run_completes {Prk : Type} (prkOut : L.Done → Prk) (hhonest : L.Honest)
    (hprk : ∀ t : Transcript L, prkOut t.doneI = prkOut t.doneR)
    (hexp : ∀ done done', prkOut done = prkOut done' → L.edhocExporter done = L.edhocExporter done')
    {s₀ : Pair L} (hboot : ∀ x, (s₀ x).Booted) (hmut : Mutual (s₀ .a).cfg (s₀ .b).cfg)
    {acts : ℕ → Act L} (h : FairRun s₀ acts) :
    ∃ lmk start, ∀ n, start ≤ n → ∀ x,
      (trail Pair.step s₀ acts n x).dev.state = .complete ∧
        (trail Pair.step s₀ acts n x).dev.lmk? (trail Pair.step s₀ acts n x).cfg = some lmk := by
  obtain ⟨start, hlast⟩ := eventually_last hhonest hboot hmut h
  obtain ⟨t, k, hboth, hka, hkb⟩ := hlast start le_rfl
  have hgrows := grows_pair (fun x => inv_booted (hboot x)) ((List.range start).map acts)
  have hmut' : Mutual (trail Pair.step s₀ acts start .a).cfg
      (trail Pair.step s₀ acts start .b).cfg := by
    rwa [trail, (hgrows .a).1, (hgrows .b).1]
  obtain ⟨lmk, hlmk⟩ := hboth.agreed hprk hexp (inv_pair hboot _) hmut' (by omega) (by omega)
  refine ⟨lmk, start, fun n hn x => ⟨?_, ?_⟩⟩
  · obtain ⟨t', k', hboth', hka', hkb'⟩ := hlast n hn
    cases x with
    | a => exact ((hboth'.reached .a).last_initiator hka').1
    | b => exact ((hboth'.reached .b).last_responder hkb').1
  · obtain ⟨hcfg, hgrows'⟩ := grows_trail acts hboot hn x
    rw [hcfg]
    exact hgrows'.lmk lmk (hlmk x)

/-- `sampleActs`, again and again. -/
def sampleLoop (n : ℕ) : Act Lakers.sample := sampleActs[n % 15]?.getD (.poll .a .sample)

theorem sampleLoop_eq (n : ℕ) {i : ℕ} (hi : i < 15) :
    sampleLoop (15 * n + i) = sampleActs[i]?.getD (.poll .a .sample) := by
  rw [sampleLoop, Nat.mul_add_mod, Nat.mod_eq_of_lt hi]

theorem fairRun_sample : FairRun Pair.sample sampleLoop where
  undisturbed n := by
    have hlt : n % 15 < sampleActs.length := Nat.mod_lt n (by decide)
    have hmem : sampleLoop n ∈ sampleActs := by
      rw [sampleLoop, List.getElem?_eq_getElem hlt]
      exact List.getElem_mem hlt
    generalize sampleLoop n = act at hmem
    revert act
    simp [sampleActs, Undisturbed, Env.sample]
  started := ⟨0, 2000, .sample, rfl, by decide⟩
  polled x n := by
    cases x with
    | a => exact ⟨15 * n + 4, by omega, .sample, sampleLoop_eq n (by decide)⟩
    | b => exact ⟨15 * n + 2, by omega, .sample, sampleLoop_eq n (by decide)⟩
  delayOver x n _ := by
    cases x with
    | a => exact ⟨15 * n + 10, by omega, .sample, sampleLoop_eq n (by decide)⟩
    | b => exact ⟨15 * n + 7, by omega, .sample, sampleLoop_eq n (by decide)⟩
  delivered x i n hi := by
    have hinv := inv_pair booted_sample ((List.range n).map sampleLoop)
    have hle := length_sentFrames_le (hinv x.other)
    exact ⟨15, delivered_sample x (hi.trans_le hle)⟩

theorem fair_run_completes_sample : ∃ lmk start, ∀ n, start ≤ n → ∀ x,
    (trail Pair.step Pair.sample sampleLoop n x).dev.state = .complete ∧
      (trail Pair.step Pair.sample sampleLoop n x).dev.lmk?
        (trail Pair.step Pair.sample sampleLoop n x).cfg = some lmk :=
  fair_run_completes (fun done => done) Lakers.honest_sample Transcript.doneI_sample
    (fun _ _ => congrArg _)
    booted_sample (by decide) fairRun_sample

end EspNowEdhoc
