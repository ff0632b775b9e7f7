import EspNowEdhoc.Device.Frames
import EspNowEdhoc.Pair.Resilience

/-!
# When the receive queue has room

* `Act.arrives x`: the act puts one of the three frames sent to `x`, or a frame of a third station,
  on the air towards `x`; `countP_arrives`: how many there are.
* **`no_frame_dropped`**: a board that is brought few copies of each frame drops none of them.
-/

set_option autoImplicit false

namespace EspNowEdhoc

open Runs

variable {L : Lakers}

/-! ## Arrivals -/

def Act.delivers (x : Side) (n : ℕ) : Act L → Bool
  | .deliver x' n' => x' = x ∧ n' = n
  | .startCheck .. | .poll .. | .delayOver .. | .inject .. => false

def Act.injects (x : Side) : Act L → Bool
  | .inject x' _ _ => x' = x
  | .startCheck .. | .poll .. | .delayOver .. | .deliver .. => false

/-- The act brings `x` one of the three frames of the other board, or another frame. -/
def Act.arrives (x : Side) : Act L → Bool
  | .deliver x' n => x' = x ∧ n < 3
  | .inject x' _ _ => x' = x
  | .startCheck .. | .poll .. | .delayOver .. => false

section Arrivals

variable {s s₀ : Pair L} {x : Side}

theorem countP_arrives (x : Side) (acts : List (Act L)) :
    acts.countP (Act.arrives x) = acts.countP (Act.delivers x 0) + acts.countP (Act.delivers x 1) +
      acts.countP (Act.delivers x 2) + acts.countP (Act.injects x) := by
  induction acts with
  | nil => rfl
  | cons act acts ih =>
    simp only [List.countP_cons, ih]
    cases act with
    | startCheck | poll | delayOver => simp [Act.arrives, Act.delivers, Act.injects]
    | inject x' src data =>
      by_cases hx : x' = x <;> simp [Act.arrives, Act.delivers, Act.injects, hx]
      omega
    | deliver x' n =>
      have hn : n = 0 ∨ n = 1 ∨ n = 2 ∨ 3 ≤ n := by omega
      by_cases hx : x' = x
      · rcases hn with rfl | rfl | rfl | hn
        · simp [Act.arrives, Act.delivers, Act.injects, hx]
          omega
        · simp [Act.arrives, Act.delivers, Act.injects, hx]
          omega
        · simp [Act.arrives, Act.delivers, Act.injects, hx]
          omega
        · have h0 : n ≠ 0 := by omega
          have h1 : n ≠ 1 := by omega
          have h2 : n ≠ 2 := by omega
          have h3 : ¬ n < 3 := by omega
          simp [Act.arrives, Act.delivers, Act.injects, hx, h0, h1, h2, h3]
      · simp [Act.arrives, Act.delivers, Act.injects, hx]

theorem length_arrive_le (b : Board L) (src : Mac) (data : List UInt8) :
    (b.arrive src data).rxQueue.items.length ≤ b.rxQueue.items.length + 1 := by
  simp only [Board.arrive, espnowRecvCb]
  split
  · exact Nat.le_succ _
  split
  · exact Nat.le_succ _
  · exact BoundedQueue.length_push_le ..

theorem length_poll_le (b : Board L) (env : Env L) :
    (b.poll env).rxQueue.items.length ≤ b.rxQueue.items.length := by
  cases polled b env with
  | idle hb => rw [hb]
  | rejected rx queue _ hpop _ hb => rw [hb]; exact BoundedQueue.length_of_pop hpop
  | handled rx queue msg _ hpop _ hb => rw [hb]; exact BoundedQueue.length_of_pop hpop

theorem length_boardAfter_le (hinv : PairInv s) (act : Act L) :
    (s.boardAfter act).rxQueue.items.length ≤
      (s act.side).rxQueue.items.length + if act.arrives act.side then 1 else 0 := by
  cases act with
  | startCheck x tick env => exact Nat.le_add_right ..
  | delayOver x env => exact Nat.le_add_right ..
  | poll x env => exact (length_poll_le (s x) env).trans (Nat.le_add_right ..)
  | inject x src data =>
    rw [if_pos (by simp [Act.arrives, Act.side])]
    exact length_arrive_le ..
  | deliver x n =>
    simp only [Pair.boardAfter]
    split
    · exact Nat.le_add_right ..
    · next f hf =>
      have hn : n < 3 :=
        (List.getElem?_eq_some_iff.mp hf).1.trans_le (length_sentFrames_le (hinv x.other))
      rw [if_pos (by simp [Act.arrives, Act.side, hn])]
      exact length_arrive_le ..

theorem length_items_le (hboot : ∀ x, (s₀ x).Booted) (acts : List (Act L)) (x : Side) :
    (run Pair.step s₀ acts x).rxQueue.items.length ≤ acts.countP (Act.arrives x) := by
  refine (run_hist_inv (G := fun _ _ => True) (I := fun acts s => PairInv s ∧
      ∀ x, (s x).rxQueue.items.length ≤ acts.countP (Act.arrives x))
    ⟨fun x => inv_booted (hboot x), fun x => ?_⟩ (fun acts s act h _ =>
      ⟨(pair_step h.1 act).1, fun x => ?_⟩) (allowed_of_forall fun _ _ _ => trivial)).2 x
  · rw [(hboot x).1]
    exact Nat.zero_le _
  · rw [List.countP_append, List.countP_singleton]
    by_cases hx : x = act.side
    · subst hx
      rw [Pair.step_self]
      exact (length_boardAfter_le h.1 act).trans (Nat.add_le_add_right (h.2 _) _)
    · rw [Pair.step_of_ne s act hx]
      exact (h.2 x).trans (Nat.le_add_right ..)

theorem speaks_pair (hboot : ∀ x, (s₀ x).Booted) (acts : List (Act L)) (x : Side) :
    (run Pair.step s₀ acts x).dev.Speaks fun _ _ => True := by
  refine run_inv (G := fun _ _ => True)
    (I := fun s : Pair L => ∀ x, (s x).dev.Speaks fun _ _ => True)
    (fun x => ?_) (fun s act h _ => ?_) (allowed_of_forall fun _ _ _ => trivial) x
  · obtain ⟨-, env, created, bootTick, hdev⟩ := hboot x
    exact speaks_appMain hdev
  · exact dev_step (P := fun _ d => d.Speaks fun _ _ => True) h act fun t _ _ _ =>
      (h _).step ⟨trivial, fun _ _ => trivial⟩ _ fun _ _ _ _ => trivial

end Arrivals

/-! ## No frame is dropped -/

/-- **No frame is dropped.** In a run of two boards, each of the frames `0`, `1` and `2` of one
board is delivered to the other at most `k` times, and at most `m` frames of third stations arrive
there. If `3 * k + m` is at most the length of the queue, then every frame that is delivered is
queued, however rarely the receiver polls. -/
theorem no_frame_dropped {s₀ : Pair L} (hboot : ∀ x, (s₀ x).Booted) {x : Side} {n k m : ℕ}
    (before after : List (Act L)) {f : SentFrame}
    (hframes : ∀ i < 3, (before ++ .deliver x n :: after).countP (Act.delivers x i) ≤ k)
    (hinject : (before ++ .deliver x n :: after).countP (Act.injects x) ≤ m)
    (hbound : 3 * k + m ≤ espnowTransportRxQueueLen)
    (hf : (run Pair.step s₀ before x.other).dev.sentFrames[n]? = some f) :
    let s : Pair L := run Pair.step s₀ before
    (s.step (.deliver x n) x).rxQueue.items =
      (s x).rxQueue.items ++ [f.packet (s x.other).cfg.ownMac] := by
  intro s
  have hn : n < 3 := (List.getElem?_eq_some_iff.mp hf).1.trans_le
    (length_sentFrames_le (inv_pair hboot before x.other))
  have hroom : ¬ (s x).rxQueue.Full := by
    -- one of the arrivals is still to come
    have htotal := countP_arrives x (before ++ .deliver x n :: after)
    have hlen : before.countP (Act.arrives x) + 1 ≤
        (before ++ .deliver x n :: after).countP (Act.arrives x) := by
      rw [List.countP_append, List.countP_cons_of_pos (by simp [Act.arrives, hn])]
      omega
    have hqueued := length_items_le hboot before x
    have h0 := hframes 0 (by decide)
    have h1 := hframes 1 (by decide)
    have h2 := hframes 2 (by decide)
    intro hfull
    have hfull' : (s x).rxQueue.items.length = espnowTransportRxQueueLen := hfull
    have hqueued' : (s x).rxQueue.items.length ≤ before.countP (Act.arrives x) := hqueued
    omega
  obtain ⟨hpos, hle⟩ := ((speaks_pair hboot before x.other).sent
    (List.mem_of_getElem? hf)).length_data
  have hself : s.step (.deliver x n) x = s.boardAfter (.deliver x n) := s.step_self (.deliver x n)
  have hb : s.boardAfter (.deliver x n) = (s x).arrive (s x.other).cfg.ownMac f.data := by
    simp only [Pair.boardAfter, show (s x.other).dev.sentFrames[n]? = some f from hf]
  rw [hself, hb, Board.arrive, espnowRecvCb_eq_push _ (by omega) (by omega)]
  exact BoundedQueue.items_push_of_not_full hroom

theorem no_frame_dropped_sample :
    ((run Pair.step Pair.sample [.startCheck .a 2000 .sample, .deliver .b 0, .deliver .b 0]).step
      (.deliver .b 0) .b).rxQueue.items.length = 3 := by
  rw [no_frame_dropped booted_sample (k := 3) (m := 1) _ [.inject .b strangerMac []]
    (f := ⟨(Config.sample .initiator).peerMac,
      frameBytes MsgType.m1.code edhocSessionId 1 sampleMessage1,
      some { PeerInfo.zero with peerAddr := (Config.sample .initiator).peerMac, channel := 1 },
      espOk⟩) (by decide) (by decide) (by decide) (by decide)]
  decide

end EspNowEdhoc
