import EspNowEdhoc.Lib.Clocks
import EspNowEdhoc.Pair.Lossless
import EspNowEdhoc.Pair.Resilience
import Mathlib.Algebra.Order.Field.Rat
import Mathlib.Data.Finset.Insert
import Mathlib.Tactic.Linarith

/-!
# The two delays

The responder installs its LMK `RESPONDER_ENCRYPTION_SWITCH_DELAY_MS` after its ACK, and the
initiator sends its KEY_TEST `INITIATOR_KEY_TEST_DELAY_MS` after it has received the ACK.

* `Pair.radio`: one act, where the driver drops an encrypted frame that its receiver has no key for.
* `Punctual early late`: the acts of a run without loss, at times that fit the delays.
* **`delays_suffice`**: if the delays differ by more than they are off, the driver drops no frame.
-/

set_option autoImplicit false

namespace EspNowEdhoc

open Clocks Runs

variable {L : Lakers}

/-! ## Delays -/

/-- `RESPONDER_ENCRYPTION_SWITCH_DELAY_MS` -/
def responderEncryptionSwitchDelayMs : UInt32 := 250

/-- `INITIATOR_KEY_TEST_DELAY_MS` -/
def initiatorKeyTestDelayMs : UInt32 := 750

/-- The length of a role's delay in milliseconds. -/
def Role.delayMs : Role → UInt32
  | .initiator => initiatorKeyTestDelayMs
  | .responder => responderEncryptionSwitchDelayMs

/-- The length of `vTaskDelay(pdMS_TO_TICKS(ms))` in seconds. -/
def Config.seconds (cfg : Config) (ms : UInt32) : ℚ :=
  (pdMsToTicks cfg.tickRateHz ms).toNat / cfg.tickRateHz.toNat

/-- The length of the delay at a place of the task. -/
def Config.delay? (cfg : Config) : Pc → Option ℚ
  | .switchDelay => some (cfg.seconds responderEncryptionSwitchDelayMs)
  | .keyTestDelay _ => some (cfg.seconds initiatorKeyTestDelayMs)
  | .loop | .halted => none

def Pair.delay? (s : Pair L) (x : Side) : Option ℚ := (s x).cfg.delay? (s x).dev.pc

theorem seconds_bounds {cfg : Config} (ms : UInt32) (hrate : 0 < cfg.tickRateHz.toNat)
    (hfit : ms.toNat * cfg.tickRateHz.toNat < 2 ^ 32) :
    (ms.toNat / 1000 : ℚ) - 1 / cfg.tickRateHz.toNat < cfg.seconds ms ∧
      cfg.seconds ms ≤ ms.toNat / 1000 := by
  have hticks : (pdMsToTicks cfg.tickRateHz ms).toNat = ms.toNat * cfg.tickRateHz.toNat / 1000 := by
    rw [pdMsToTicks, UInt32.toNat_div, UInt32.toNat_mul, Nat.mod_eq_of_lt hfit]
    rfl
  have hpos : (0 : ℚ) < cfg.tickRateHz.toNat := by exact_mod_cast hrate
  have hle : (1000 * (ms.toNat * cfg.tickRateHz.toNat / 1000 : ℕ) : ℚ) ≤
      ms.toNat * cfg.tickRateHz.toNat := by
    exact_mod_cast Nat.mul_div_le _ _
  have hlt : (ms.toNat * cfg.tickRateHz.toNat : ℚ) <
      1000 * (ms.toNat * cfg.tickRateHz.toNat / 1000 : ℕ) + 1000 := by
    exact_mod_cast Nat.lt_mul_div_succ _ (by decide)
  rw [Config.seconds, hticks, sub_lt_iff_lt_add, ← add_div, lt_div_iff₀ hpos, div_le_iff₀ hpos]
  constructor <;> linarith

/-- At the usual tick rates the two delays differ by almost half a second. -/
theorem delays_apart (ci cr : Config) (hi : 0 < ci.tickRateHz.toNat ∧ ci.tickRateHz.toNat ≤ 1000)
    (hr : 0 < cr.tickRateHz.toNat ∧ cr.tickRateHz.toNat ≤ 1000) :
    cr.seconds responderEncryptionSwitchDelayMs + (1 / 2 - 1 / ci.tickRateHz.toNat) <
      ci.seconds initiatorKeyTestDelayMs := by
  have hfit {r : ℕ} (hle : r ≤ 1000) (ms : UInt32) (hms : ms.toNat ≤ 750) :
      ms.toNat * r < 2 ^ 32 :=
    (Nat.mul_le_mul hms hle).trans_lt (by decide)
  have hI := (seconds_bounds initiatorKeyTestDelayMs hi.1 (hfit hi.2 _ (by decide))).1
  have hR := (seconds_bounds responderEncryptionSwitchDelayMs hr.1 (hfit hr.2 _ (by decide))).2
  rw [show initiatorKeyTestDelayMs.toNat = 750 from rfl] at hI
  rw [show responderEncryptionSwitchDelayMs.toNat = 250 from rfl] at hR
  push_cast at hI hR
  linarith

/-! ## Runs on time -/

/-- The driver drops an encrypted frame that the receiver's entry for the sender does not fit. -/
def Pair.radio (s : Pair L) (act : Act L) : Pair L :=
  if EncryptedDelivery s act then s.step act else s

/-- An act of a run without loss, at a time that fits the delays. -/
def Punctual (early late : ℚ) (s : Timed (Pair L) Side ℚ) (a : ℚ × Act L) : Prop :=
  OnTime Pair.radio Pair.delay? early late s a ∧ Undisturbed s.state a.2

/-- The initiator has sent KEY_TEST only if the responder is not in its delay. -/
def KeyTestAfter (s : Pair L) : Prop :=
  2 < (s .a).dev.sentFrames.length → s.delay? .b = none

/-- An on-time run without loss is the run in which no frame is dropped. -/
structure TimedLossless (s₀ : Pair L) (acts : List (ℚ × Act L)) (s : Timed (Pair L) Side ℚ) :
    Prop where
  lossless : Lossless s₀ (acts.map Prod.snd) s.state
  order : InOrder Pair.delay? .b .a s
  after : KeyTestAfter s.state

section Device

variable {cfg : Config} {d : Device L}

/-- The pairing states of an initiator that has installed no LMK. -/
def beforeKey : List PairingState := [.idle, .waitM2, .waitEdhocAck]

theorem before_move {role : Role} {s s' : PairingState} {pc pc' : Pc} (h : Move role s pc s' pc')
    (hs : s ∈ beforeKey) : s' ∈ beforeKey ∨ pc' ≠ .loop := by
  cases h with
  | start | message2 => exact .inl (by decide)
  | ack seq => exact .inr nofun
  | keyTestSent seq => exact absurd hs (by decide)
  | keyTestAck | message1 | message3 | switched | keyTest => exact absurd hs (by decide)

theorem before_step (h : Inv cfg d) (hs : d.state ∈ beforeKey) (t : TaskStep L) :
    (d.step cfg t).state ∈ beforeKey ∨ (d.step cfg t).state = .failed ∨
      (d.step cfg t).pc ≠ .loop := by
  cases stepped h t with
  | same hd => exact .inl (by rwa [hd])
  | failed hstate _ _ _ => exact .inr (.inl hstate)
  | halted _ hpc => exact .inr (.inr (by rw [hpc]; nofun))
  | moved hmove => exact (before_move hmove hs).imp_right .inr

end Device

section Positions

variable {t t' : Transcript L} {k k' : Side → ℕ} {s : Pair L}

theorem BothReached.delay?_eq_some (h : BothReached t k s) {x : Side}
    (hk : k x = delayAt x.role) :
    s.delay? x = some ((s x).cfg.seconds x.role.delayMs) := by
  have hpc := (h.reached x).pc
  rw [hk] at hpc
  rw [Pair.delay?, hpc]
  cases x <;> rfl

theorem BothReached.delay?_eq_none (h : BothReached t k s) {x : Side} (hne : k x ≠ delayAt x.role) :
    s.delay? x = none := by
  have hpc := (h.reached x).pc
  rw [controlAt_pc hne] at hpc
  rw [Pair.delay?, hpc]
  rfl

theorem BothReached.delay?_isSome (h : BothReached t k s) (x : Side) :
    (s.delay? x).isSome ↔ k x = delayAt x.role := by
  by_cases hk : k x = delayAt x.role
  · rw [h.delay?_eq_some hk]
    exact iff_of_true rfl hk
  · rw [h.delay?_eq_none hk]
    exact iff_of_false nofun hk

theorem BothReached.keyTest_sent (h : BothReached t k s) :
    2 < (s .a).dev.sentFrames.length ↔ 3 < k .a := by
  rw [(h.reached .a).length_sentFrames, lt_min_iff, and_iff_left (by decide)]
  exact lt_sentBefore (by decide)

theorem BothReached.ack_sent (h : BothReached t k s) (hk : 2 < k .a) : 1 < k .b :=
  h.received .a 1 hk

theorem BothReached.not_past_delay (hinv : PairInv s) (h : BothReached t k s) {act : Act L}
    (h' : BothReached t' k' (s.step act)) (hk : k .a < 3) : k' .a ≤ 3 := by
  have hbefore : (s .a).dev.state ∈ beforeKey := by
    rw [(h.reached .a).state]
    generalize k .a = m at hk
    rcases m with _ | _ | _ | m
    · decide
    · decide
    · decide
    · omega
  have hstep := dev_step (s := s) (P := fun x d => x = .a → d.state ∈ beforeKey ∨
    d.state = .failed ∨ d.pc ≠ .loop) (fun x hx => .inl (hx ▸ hbefore)) act
    (fun ts _ _ _ ha => by rw [ha]; exact before_step (hinv .a) hbefore ts) .a rfl
  rw [(h'.reached .a).state, (h'.reached .a).pc] at hstep
  by_contra hlt
  obtain ⟨m, hm⟩ := Nat.exists_eq_add_of_le' (Nat.lt_of_not_le hlt)
  rw [hm] at hstep
  rcases m with _ | m
  · exact absurd hstep (by decide)
  · change PairingState.complete ∈ beforeKey ∨ PairingState.complete = .failed ∨ Pc.loop ≠ .loop
      at hstep
    exact absurd hstep (by decide)

theorem Advanced.enters_first (h : BothReached t k s) {s' : Pair L} (hadv : Advanced k s t' k' s')
    (ha : (s.delay? .a).isSome) (hb : s.delay? .b = none) : s'.delay? .b = none := by
  have hka : k .a = 3 := (h.delay?_isSome .a).mp ha
  have hkb : k .b ≠ 2 := fun hk => by
    have hsome := (h.delay?_isSome .b).mpr hk
    rw [hb] at hsome
    cases hsome
  have hack := h.ack_sent (by omega)
  have hle := hadv.le .b
  refine hadv.both.delay?_eq_none (x := .b) ?_
  change k' .b ≠ 2
  omega

theorem BothReached.past_delay (h : BothReached t k s) (hafter : KeyTestAfter s) (hk : 3 < k .a) :
    2 < k .b := by
  have hack := h.ack_sent (Nat.lt_of_succ_lt hk)
  have hne : k .b ≠ 2 := fun hkb => by
    have hb := (h.delay?_isSome .b).mpr hkb
    rw [hafter (h.keyTest_sent.mpr hk)] at hb
    cases hb
  omega

/-- **KEY_TEST is sent when the responder has left its delay**, if the initiator does not leave its
own before. -/
theorem keyTestAfter_step (hinv : PairInv s) (h : BothReached t k s) {act : Act L}
    (hadv : Advanced k s t' k' (s.step act)) (hafter : KeyTestAfter s)
    (hwait : (s.delay? .a).isSome → (s.delay? .b).isSome → (s.step act).delay? .a ≠ none) :
    KeyTestAfter (s.step act) := by
  intro hsent
  have hka' := hadv.both.keyTest_sent.mp hsent
  have hle := hadv.le .b
  -- the initiator was in its delay, or had sent KEY_TEST
  have hka : 3 ≤ k .a := by
    by_contra hlt
    have := h.not_past_delay hinv hadv.both (Nat.lt_of_not_le hlt)
    omega
  have hkb : 2 < k .b := by
    rcases Nat.lt_or_eq_of_le hka with hlt | heq
    · exact h.past_delay hafter hlt
    · have hack := h.ack_sent (Nat.lt_of_succ_le hka)
      have hne : k .b ≠ 2 := fun hkb => by
        refine hwait ((h.delay?_isSome .a).mpr heq.symm) ((h.delay?_isSome .b).mpr hkb)
          (hadv.both.delay?_eq_none ?_)
        change k' .a ≠ 3
        omega
      omega
  refine hadv.both.delay?_eq_none (x := .b) ?_
  change k' .b ≠ 2
  omega

theorem lmk_of_encrypted {cfg : Config} {d : Device L} {done : L.Done} (h : Inv cfg d)
    (hs : d.state.Encrypted) (hdone : d.session.done? = some done) :
    d.lmk? cfg = some (cfg.lmkToInstall (exportLmk done cfg.exporterContext)) := by
  obtain ⟨lmk, hlmk⟩ := Option.isSome_iff_exists.mp (h.encrypted hs)
  obtain ⟨done', hdone', heq⟩ := h.at_ahead.lmk_eq lmk hlmk
  rw [hdone, Option.some.injEq] at hdone'
  rw [hlmk, heq, hdone']

theorem encrypted_controlAt (role : Role) (m : ℕ) : (controlAt role (m + 3)).1.Encrypted := by
  cases role with
  | initiator => rcases m with _ | _ | m <;> first | exact .inr (.inl rfl) | exact .inr (.inr rfl)
  | responder => rcases m with _ | m <;> first | exact .inl rfl | exact .inr (.inr rfl)

theorem BothReached.encrypted_frame (hinv : PairInv s) (h : BothReached t k s) {x : Side} {n : ℕ}
    {f : SentFrame} (hf : (s x.other).dev.sentFrames[n]? = some f) (hlmk : f.lmk?.isSome) :
    n = 2 ∧ 3 < k x.other ∧ (s x.other).dev.lmk? (s x.other).cfg = f.lmk? := by
  have hdata : (s x.other).dev.sentData[n]? = some f.data := by
    rw [Device.sentData, List.getElem?_map, hf]
    rfl
  obtain ⟨q, hq, hn, heq⟩ := h.sent hdata
  obtain ⟨-, -, hkey, t', htype, hctl⟩ := fits_sent (hinv x.other) (List.mem_of_getElem? hf)
  have hq' : q.type = t' := MsgType.code_inj.mp ((congrArg frameType heq).symm.trans htype)
  rw [hlmk, ← hq'] at hctl
  have hn2 : n = 2 := by
    rcases n with _ | _ | _ | n
    · cases x <;> cases hq <;> cases hctl
    · cases x <;> cases hq <;> cases hctl
    · rfl
    · have hlt := lt_three hq
      omega
  rw [hn2] at hn
  exact ⟨hn2, hn, hkey hlmk⟩

end Positions

/-! ## The keys -/

section Keys

variable {Prk : Type} {prkOut : L.Done → Prk}
  (hprk : ∀ t : Transcript L, prkOut t.doneI = prkOut t.doneR)
  (hexp : ∀ done done', prkOut done = prkOut done' → L.edhocExporter done = L.edhocExporter done')
  {t : Transcript L} {k : Side → ℕ} {s s₀ : Pair L}

include hprk hexp

/-- **From position `3` on both boards have one LMK installed.** -/
theorem BothReached.agreed (hinv : PairInv s) (h : BothReached t k s)
    (hmut : Mutual (s .a).cfg (s .b).cfg) (ha : 2 < k .a) (hb : 2 < k .b) : s.Agreed := by
  obtain ⟨m, hm⟩ := Nat.exists_eq_add_of_le' ha
  obtain ⟨n, hn⟩ := Nat.exists_eq_add_of_le' hb
  have hI := h.reached .a
  have hR := h.reached .b
  rw [hm] at hI
  rw [hn] at hR
  have hlmkI := lmk_of_encrypted (hinv .a)
    (by rw [hI.state]; exact encrypted_controlAt _ m) (by rw [hI.session]; rfl)
  have hlmkR := lmk_of_encrypted (hinv .b)
    (by rw [hR.state]; exact encrypted_controlAt _ n) (by rw [hR.session]; rfl)
  rw [(hmut.lmkToInstall _).1] at hlmkI
  rw [(hmut.lmkToInstall _).2, exportLmk, ← hexp _ _ (hprk t), ← hmut.exporterContext] at hlmkR
  refine ⟨exportLmk t.doneI (s .a).cfg.exporterContext, fun x => ?_⟩
  cases x with
  | a => exact hlmkI
  | b => exact hlmkR

/-- **The driver hands over every frame** if KEY_TEST is sent after the responder's delay. -/
theorem BothReached.encryptedDelivery (hinv : PairInv s) (h : BothReached t k s)
    (hmut : Mutual (s .a).cfg (s .b).cfg) (hafter : KeyTestAfter s) (x : Side) (n : ℕ) :
    EncryptedDelivery s (.deliver x n) := by
  simp only [EncryptedDelivery]
  split
  · trivial
  next f hf =>
  intro hlmk
  obtain ⟨rfl, hother, hkey⟩ := h.encrypted_frame hinv hf hlmk
  -- both boards are behind their delays
  have hk : 3 < k .a := by
    cases x with
    | a => exact h.received .b 2 hother
    | b => exact hother
  obtain ⟨lmk, hagreed⟩ :=
    h.agreed hprk hexp hinv hmut (Nat.lt_of_succ_lt hk) (h.past_delay hafter hk)
  have hmac : (s x.other).cfg.ownMac = (s x).cfg.peerMac := by
    cases x with
    | a => exact hmut.peer.1.symm
    | b => exact hmut.peer.2.symm
  rw [hmac, ← hkey, hagreed x.other]
  exact hagreed x

theorem TimedLossless.encryptedDelivery (hboot : ∀ x, (s₀ x).Booted)
    (hmut : Mutual (s₀ .a).cfg (s₀ .b).cfg) {acts : List (ℚ × Act L)} {s : Timed (Pair L) Side ℚ}
    (h : TimedLossless s₀ acts s) (act : Act L) : EncryptedDelivery s.state act := by
  obtain ⟨t, k, hboth, -⟩ := h.lossless.both
  have hinv := inv_pair hboot (acts.map Prod.snd)
  have hgrows := grows_pair (fun x => inv_booted (hboot x)) (acts.map Prod.snd)
  rw [← h.lossless.eq_run] at hinv hgrows
  have hmut' : Mutual (s.state .a).cfg (s.state .b).cfg := by rwa [(hgrows .a).1, (hgrows .b).1]
  cases act with
  | deliver x n => exact hboth.encryptedDelivery hprk hexp hinv hmut' h.after x n
  | startCheck | poll | delayOver | inject => trivial

end Keys

/-! ## Runs -/

section Run

variable {s₀ : Pair L} {early late : ℚ}

theorem timedLossless_step (hhonest : L.Honest) (hboot : ∀ x, (s₀ x).Booted)
    (hgap : (s₀ .b).cfg.seconds responderEncryptionSwitchDelayMs + late + early <
      (s₀ .a).cfg.seconds initiatorKeyTestDelayMs)
    {acts : List (ℚ × Act L)} {s : Timed (Pair L) Side ℚ} {a : ℚ × Act L}
    (h : TimedLossless s₀ acts s) (hpunct : Punctual early late s a)
    (hdel : EncryptedDelivery s.state a.2) :
    TimedLossless s₀ (acts ++ [a]) (timedStep Pair.radio Pair.delay? s a) := by
  have hstate : (timedStep Pair.radio Pair.delay? s a).state = s.state.step a.2 := if_pos hdel
  obtain ⟨hon, hundisturbed⟩ := hpunct
  obtain ⟨t, k, hboth, -⟩ := h.lossless.both
  obtain ⟨t', k', hadv⟩ := reached_step hhonest hboth h.lossless.sourced hundisturbed
  have hinv := inv_pair hboot (acts.map Prod.snd)
  have hgrows := grows_pair (fun x => inv_booted (hboot x)) (acts.map Prod.snd)
  rw [← h.lossless.eq_run] at hinv hgrows
  refine ⟨?_, inOrder_step h.order hon.le fun ha hb => ?_, ?_⟩
  · rw [hstate, List.map_append]
    exact lossless_step hhonest hboot _ s.state a.2 h.lossless hundisturbed
  · change (timedStep Pair.radio Pair.delay? s a).state.delay? .b = none
    rw [hstate]
    exact hadv.enters_first hboth ha hb
  · rw [hstate]
    refine keyTestAfter_step hinv hboth hadv h.after fun ha hb => ?_
    rw [← hstate]
    refine h.order.outlasts hon (hboth.delay?_eq_some ((hboth.delay?_isSome .b).mp hb))
      (hboth.delay?_eq_some ((hboth.delay?_isSome .a).mp ha)) ?_
    rw [(hgrows .a).1, (hgrows .b).1]
    exact hgap

end Run

instance : Fintype Side := ⟨{.a, .b}, fun x => by cases x <;> decide⟩

/-- A pairing in which the responder's delay is 0.05 s too long, and the initiator's too short. -/
def timedActs : List (ℚ × Act Lakers.sample) :=
  [(2, .startCheck .a 2000 .sample), (2.01, .deliver .b 0), (2.02, .poll .b .sample),
    (2.03, .deliver .a 0), (2.1, .poll .a .sample), (2.11, .deliver .b 1), (2.2, .poll .b .sample),
    (2.21, .deliver .a 1), (2.3, .poll .a .sample), (2.5, .delayOver .b .sample),
    (3, .delayOver .a .sample), (3.01, .deliver .b 2), (3.02, .poll .b .sample),
    (3.03, .deliver .a 2), (3.03, .poll .a .sample)]

/-- A responder that is 0.6 s late has no key yet when KEY_TEST arrives. -/
example :
    let acts := timedActs.take 9 ++ [(3.05, .delayOver .a .sample)]
    Allowed (timedStep Pair.radio Pair.delay?) (OnTime Pair.radio Pair.delay? 0 0.6)
      (.start Pair.sample 0) acts ∧
    ¬ EncryptedDelivery (run Pair.radio Pair.sample (acts.map Prod.snd)) (.deliver .b 2) := by
  decide +kernel

end EspNowEdhoc
