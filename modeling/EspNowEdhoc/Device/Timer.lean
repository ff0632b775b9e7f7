import EspNowEdhoc.Device.Calls

/-!
# The start delay

The tick counter has 32 bits and wraps around, and the start check subtracts two of its values.

* `Config.startDelay`: the delay in ticks. `TimedTurn`: a turn of the loop at a time.
* `Soon`: the turn that follows comes before the counter has gone round. `startDue_iff`: then the
  difference of the two values is the time that has passed.
* **`starts_on_time`**: an initiator starts at its first turn after the delay, and not before.
-/

set_option autoImplicit false

namespace EspNowEdhoc

open Runs Script

variable {L : Lakers}

/-! ## Times -/

/-- `EDHOC_START_DELAY_MS` in ticks. -/
def Config.startDelay (cfg : Config) : ℕ := (pdMsToTicks cfg.tickRateHz edhocStartDelayMs).toNat

variable (L) in
/-- A turn of the loop at a time, in ticks since the counter has started. -/
structure TimedTurn extends Turn L where
  now : ℕ
  tick_eq : tick = UInt32.ofNat now

/-- A turn at `p` is followed by one at `q` that comes soon enough for the start check. -/
def Soon (cfg : Config) (p q : ℕ) : Prop := p ≤ q ∧ q - p + cfg.startDelay < 2 ^ 32

instance (cfg : Config) : DecidableRel (Soon cfg) := fun p q =>
  inferInstanceAs (Decidable (p ≤ q ∧ q - p + cfg.startDelay < 2 ^ 32))

/-- The difference of two values of the counter is the time between them, up to whole rounds. -/
theorem toNat_sub_ofNat {boot now : ℕ} (h : boot ≤ now) :
    (UInt32.ofNat now - UInt32.ofNat boot).toNat = (now - boot) % 2 ^ 32 := by
  rw [UInt32.toNat_sub, UInt32.toNat_ofNat', UInt32.toNat_ofNat']
  omega

/-! ## Before the start -/

/-- A board that has not started, up to the failure of its pairing. -/
structure Unstarted (cfg : Config) (boot : ℕ) (d : Device L) : Prop where
  inv : Inv cfg d
  pc : d.pc = .loop
  started : d.initiatorStarted = false
  bootTick : d.bootTick = UInt32.ofNat boot
  state : d.state = .idle ∨ d.state = .failed
  calls : d.calls = []
  sent : d.sentFrames = []

section Initiator

variable {cfg : Config} {boot : ℕ} {d : Device L}

theorem unstarted_appMain (hrole : cfg.role = .initiator) {env₀ : Env L} {created : Bool}
    (h₀ : appMain cfg env₀ created (UInt32.ofNat boot) = some d) : Unstarted cfg boot d := by
  obtain ⟨hstate, hst, hpc, htrace, -, -⟩ := appMain_eq_some h₀
  rw [hrole] at hstate
  refine ⟨inv_appMain h₀, hpc, hst, ?_, .inl hstate, ?_, ?_⟩
  · unfold appMain at h₀
    split at h₀
    · cases h₀
    dsimp only at h₀
    split at h₀
    · cases h₀
    split at h₀ <;> cases h₀
    rfl
  · rw [Device.calls, htrace]
    rfl
  · rw [Device.sentFrames, htrace]
    rfl

/-- **When the start is due.** If the last turn came before the end of the delay and this one comes
soon after it, the counter has gone round at most once since the boot. -/
theorem startDue_iff (hrole : cfg.role = .initiator) (h : Unstarted cfg boot d) {p now : ℕ}
    (hboot : boot ≤ p) (hp : p ≤ boot + cfg.startDelay) (hsoon : Soon cfg p now) :
    StartDue cfg d (UInt32.ofNat now) ↔ boot + cfg.startDelay ≤ now := by
  obtain ⟨hle, hlt⟩ := hsoon
  have hrounds : now - boot < 2 ^ 32 := by omega
  rw [StartDue, and_iff_right hrole, and_iff_right h.started, h.bootTick, ge_iff_le,
    UInt32.le_iff_toNat_le, toNat_sub_ofNat (hboot.trans hle), Nat.mod_eq_of_lt hrounds,
    ← Config.startDelay]
  omega

theorem unstarted_turn (h : Unstarted cfg boot d) {t : Turn L} (hnot : ¬ StartDue cfg d t.tick) :
    Unstarted cfg boot (d.turn cfg t) := by
  have hinv : Inv cfg (d.turn cfg t) := inv_turns h.inv [t]
  rw [turn_of_not_due h.pc hnot] at hinv ⊢
  cases hrx : t.rx with
  | none => exact h
  | some rx =>
    rw [hrx] at hinv
    change Inv cfg (receiveStep cfg t.env rx d) at hinv
    change Unstarted cfg boot (receiveStep cfg t.env rx d)
    cases received cfg t.env h.pc rx with
    | ignored _ hd => rwa [hd]
    | rejected _ _ _ _ hd =>
      rw [hd] at hinv ⊢
      exact ⟨hinv, h.pc, h.started, h.bootTick, .inr rfl, h.calls, h.sent⟩
    | accepted _ t' _ _ _ hs =>
      -- no message is awaited before the start
      rcases h.state with hidle | hfailed
      · rw [hidle] at hs
        cases t' <;> cases hs
      · rw [hfailed] at hs
        cases t' <;> cases hs

variable {p : ℕ} {turns : List (TimedTurn L)}

theorem unstarted_turns (hrole : cfg.role = .initiator) (h : Unstarted cfg boot d)
    (hboot : boot ≤ p) (hp : p ≤ boot + cfg.startDelay)
    (hsoon : List.IsChain (Soon cfg) (p :: turns.map TimedTurn.now))
    (hearly : ∀ t ∈ turns, t.now < boot + cfg.startDelay) :
    Unstarted cfg boot (run (Device.turn cfg) d (turns.map TimedTurn.toTurn)) := by
  induction turns generalizing d p with
  | nil => exact h
  | cons t ts ih =>
    rw [List.map_cons, List.isChain_cons_cons] at hsoon
    obtain ⟨hnow, hearly⟩ := List.forall_mem_cons.mp hearly
    have hnot : ¬ StartDue cfg d t.tick := by
      rw [t.tick_eq, startDue_iff hrole h hboot hp hsoon.1]
      exact Nat.not_le.mpr hnow
    rw [List.map_cons, run_cons]
    exact ih (unstarted_turn h hnot) (hboot.trans hsoon.1.1) hnow.le hsoon.2 hearly

theorem called_turns (hrole : cfg.role = .initiator) (h : Unstarted cfg boot d)
    (hboot : boot ≤ p) (hp : p ≤ boot + cfg.startDelay)
    (hsoon : List.IsChain (Soon cfg) (p :: turns.map TimedTurn.now))
    (hlate : ∃ t ∈ turns, boot + cfg.startDelay ≤ t.now) :
    (run (Device.turn cfg) d (turns.map TimedTurn.toTurn)).calls ≠ [] := by
  induction turns generalizing d p with
  | nil =>
    obtain ⟨t, ht, -⟩ := hlate
    exact absurd ht List.not_mem_nil
  | cons t ts ih =>
    rw [List.map_cons, List.isChain_cons_cons] at hsoon
    have hdue := startDue_iff hrole h hboot hp hsoon.1
    rw [← t.tick_eq] at hdue
    rw [List.map_cons, run_cons]
    by_cases hnow : boot + cfg.startDelay ≤ t.now
    · have hlt := (calls_turn h.inv h.pc (hdue.mpr hnow)).trans_le
        (grows_turns (inv_turns h.inv [t.toTurn]) (ts.map TimedTurn.toTurn)).calls_le
      exact List.length_pos_iff.mp (Nat.zero_lt_of_lt hlt)
    · refine ih (unstarted_turn h fun hd => hnow (hdue.mp hd)) (hboot.trans hsoon.1.1)
        (Nat.le_of_not_le hnow) hsoon.2 ?_
      obtain ⟨t', ht', hlate'⟩ := hlate
      rcases List.mem_cons.mp ht' with rfl | ht'
      · exact absurd hlate' hnow
      · exact ⟨t', ht', hlate'⟩

/-- **An initiator starts on time**, wherever the tick counter wraps around, and whatever it
receives. If each turn of its loop follows the last one soon enough, it calls no Lakers function and
sends nothing as long as no turn has come after the start delay, not even when its pairing fails;
and once a turn has, it has called `lakers_edhoc_make_message_1` first. -/
theorem starts_on_time (hrole : cfg.role = .initiator) {env₀ : Env L} {created : Bool}
    (h₀ : appMain cfg env₀ created (UInt32.ofNat boot) = some d) (turns : List (TimedTurn L))
    (hsoon : List.IsChain (Soon cfg) (boot :: turns.map TimedTurn.now)) :
    let d' := run (Device.turn cfg) d (turns.map TimedTurn.toTurn)
    ((∀ t ∈ turns, t.now < boot + cfg.startDelay) → d'.calls = [] ∧ d'.sentFrames = []) ∧
      ((∃ t ∈ turns, boot + cfg.startDelay ≤ t.now) →
        ∃ input ret calls, d'.calls = .handshake .makeMessage1 input ret :: calls) := by
  intro d'
  have h : Unstarted cfg boot d := unstarted_appMain hrole h₀
  refine ⟨fun hearly => ?_, fun hlate => ?_⟩
  · have hd := unstarted_turns hrole h le_rfl (Nat.le_add_right ..) hsoon hearly
    exact ⟨hd.calls, hd.sent⟩
  · have hne : d'.calls ≠ [] := called_turns hrole h le_rfl (Nat.le_add_right ..) hsoon hlate
    -- the first call of a run is the first of the script
    obtain ⟨steps, hrun⟩ := turns_run cfg d (turns.map TimedTurn.toTurn)
    have hpre : d'.calls.filterMap Event.call? <+: callScript cfg.role := by
      rw [show d' = run (Device.step cfg) d steps from hrun]
      exact (called_run h₀ steps).follows.isPrefix
    obtain ⟨e, calls, hcalls⟩ := List.exists_cons_of_ne_nil hne
    have hcall : e.isCall = true :=
      (List.mem_filter.mp (show e ∈ d'.calls from hcalls ▸ List.mem_cons_self)).2
    rw [hcalls, hrole] at hpre
    cases e with
    | handshake x input ret =>
      have hx : Milestone.handshake x = .handshake .makeMessage1 :=
        (List.cons_prefix_cons.mp hpre).1
      cases hx
      exact ⟨input, ret, calls, hcalls⟩
    | exportLmk ret => cases (List.cons_prefix_cons.mp hpre).1
    | accepted | sent | installed => cases hcall

end Initiator

/-- A turn without a packet. -/
def TimedTurn.sample (now : ℕ) : TimedTurn Lakers.sample :=
  ⟨⟨UInt32.ofNat now, .sample, none, .sample⟩, now, rfl⟩

/-- The counter wraps around 500 ticks after the boot, and the start is due 1500 ticks later. -/
theorem starts_on_time_sample :
    let cfg := Config.sample .initiator
    ∃ d, appMain cfg Env.sample true (UInt32.ofNat (2 ^ 32 - 500)) = some d ∧
      (run (Device.turn cfg) d ([2 ^ 32 - 400, 2 ^ 32 + 1499].map fun now =>
        (TimedTurn.sample now).toTurn)).calls = [] ∧
      (run (Device.turn cfg) d ([2 ^ 32 - 400, 2 ^ 32 + 1499, 2 ^ 32 + 1500].map fun now =>
        (TimedTurn.sample now).toTurn)).calls ≠ [] := by
  intro cfg
  obtain ⟨d, h₀⟩ := Option.isSome_iff_exists.mp
    (show (appMain cfg Env.sample true (UInt32.ofNat (2 ^ 32 - 500))).isSome by decide)
  obtain ⟨hearly, -⟩ := starts_on_time rfl h₀
    ([2 ^ 32 - 400, 2 ^ 32 + 1499].map TimedTurn.sample) (by decide)
  obtain ⟨-, hlate⟩ := starts_on_time rfl h₀
    ([2 ^ 32 - 400, 2 ^ 32 + 1499, 2 ^ 32 + 1500].map TimedTurn.sample) (by decide)
  refine ⟨d, h₀, (hearly (by decide)).1, ?_⟩
  obtain ⟨_, _, _, hcalls⟩ := hlate ⟨.sample (2 ^ 32 + 1500), by simp, by decide⟩
  rw [List.map_map] at hcalls
  intro hnil
  cases hcalls.symm.trans hnil

end EspNowEdhoc
