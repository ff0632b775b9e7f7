import EspNowEdhoc.Pair.Confirmation

/-!
# The negative test with a corrupted LMK

`MILESTONE9_CORRUPT_LMK_FOR_TEST` flips a bit of the LMK that a board installs.

* `Config.uncorrupted`: a board without the macro. `lmkToInstall_inj`: two boards install one LMK
  exactly if both have the macro or neither has.
* `installed_from_one`: what two configured boards install comes from one exported LMK.
* **`corrupted_key_test`**: what the test detects.
-/

set_option autoImplicit false

namespace EspNowEdhoc

open Runs

variable {L : Lakers}

/-! ## The flipped bit -/

/-- The configuration without `MILESTONE9_CORRUPT_LMK_FOR_TEST`. -/
def Config.uncorrupted (cfg : Config) : Config := { cfg with corruptLmk := false }

theorem exporterContext_uncorrupted (cfg : Config) :
    cfg.uncorrupted.exporterContext = cfg.exporterContext := by
  rcases cfg with ⟨_ | _, _, _, _, _, _⟩ <;> rfl

theorem corrupt_ne (lmk : Lmk) : lmk.modify 0 (· ^^^ 0x01) ≠ lmk := by
  intro h
  have hlist : lmk.toList.modify 0 (· ^^^ 0x01) = lmk.toList := congrArg List.Vector.toList h
  have hlen : lmk.toList.length = 16 := lmk.toList_length
  cases hl : lmk.toList with
  | nil =>
    rw [hl] at hlen
    cases hlen
  | cons b bs =>
    rw [hl, List.modify_zero_cons] at hlist
    have hb : b ^^^ 0x01 = b := (List.cons.inj hlist).1
    have hzero : b ^^^ (b ^^^ 0x01) = b ^^^ b := congrArg (b ^^^ ·) hb
    rw [← UInt8.xor_assoc, UInt8.xor_self, UInt8.zero_xor] at hzero
    cases hzero

/-- **Two boards install one LMK** exactly if both corrupt it or neither does. -/
theorem lmkToInstall_inj (ci cr : Config) (lmk : Lmk) :
    ci.lmkToInstall lmk = cr.lmkToInstall lmk ↔ ci.corruptLmk = cr.corruptLmk := by
  have hne := corrupt_ne lmk
  unfold Config.lmkToInstall
  cases ci.corruptLmk <;> cases cr.corruptLmk
  · exact iff_of_true rfl rfl
  · exact iff_of_false hne.symm nofun
  · exact iff_of_false hne nofun
  · exact iff_of_true rfl rfl

/-! ## Two boards -/

section Boards

variable {Prk : Type} {prkOut : L.Done → Prk} {s₀ : Pair L}

theorem installed_from_one (hboot : ∀ x, (s₀ x).Booted)
    (hmut : Mutual (s₀ .a).cfg.uncorrupted (s₀ .b).cfg.uncorrupted)
    (hexp : ∀ done done', prkOut done = prkOut done' →
      L.edhocExporter done = L.edhocExporter done')
    {acts : List (Act L)}
    (hauth : AuthenticMessage3 prkOut (run Pair.step s₀ acts .a).dev
      (run Pair.step s₀ acts .b).dev) {lmkI lmkR : Lmk}
    (hI : (run Pair.step s₀ acts .a).dev.lmk? (s₀ .a).cfg = some lmkI)
    (hR : (run Pair.step s₀ acts .b).dev.lmk? (s₀ .b).cfg = some lmkR) :
    ∃ lmk, lmkI = (s₀ .a).cfg.lmkToInstall lmk ∧ lmkR = (s₀ .b).cfg.lmkToInstall lmk := by
  have hgrows := grows_pair (fun x => inv_booted (hboot x)) acts
  have hinvI := inv_pair hboot acts .a
  have hinvR := inv_pair hboot acts .b
  rw [(hgrows .a).1] at hinvI
  rw [(hgrows .b).1] at hinvR
  obtain ⟨doneI, hdoneI, hlmkI⟩ := hinvI.at_ahead.lmk_eq lmkI hI
  obtain ⟨doneR, hdoneR, hlmkR⟩ := hinvR.at_ahead.lmk_eq lmkR hR
  -- the session of the responder came with a message_3 of the session of the initiator
  obtain ⟨input, ret, hev, hok, hses⟩ := session_of_installed hinvR (by rw [hR]; rfl)
  have hrole : (s₀ .b).cfg.role = .responder := hmut.responder
  rw [hrole] at hev
  obtain ⟨input', ret', done', hev', hok', -, hdone', hprk⟩ :=
    hauth input ret doneR hev hok (by rw [hses]; exact hdoneR)
  rw [((hinvI.at_ahead.fits _ hev').2 hok' rfl).2, hdoneI] at hdone'
  cases hdone'
  have hctx := hmut.exporterContext
  rw [exporterContext_uncorrupted, exporterContext_uncorrupted] at hctx
  have hone : exportLmk doneR (s₀ .b).cfg.exporterContext =
      exportLmk doneI (s₀ .a).cfg.exporterContext := by
    rw [exportLmk, exportLmk, hexp _ _ hprk, hctx]
  exact ⟨exportLmk doneI (s₀ .a).cfg.exporterContext, hlmkI, by rw [hlmkR, hone]⟩

/-- **What the negative test detects.** An initiator and a responder are configured for each other,
but for the macro that corrupts the LMK. On every schedule with any frames, the LMKs that both have
installed are equal exactly if both boards have the macro or neither has. With their own frames
only: if one of the two has the macro, then at no point is a board in `COMPLETE`, and no KEY_TEST or
KEY_TEST_ACK of the one ever comes into the queue of the other. -/
theorem corrupted_key_test (hboot : ∀ x, (s₀ x).Booted)
    (hmut : Mutual (s₀ .a).cfg.uncorrupted (s₀ .b).cfg.uncorrupted)
    (hexp : ∀ done done', prkOut done = prkOut done' →
      L.edhocExporter done = L.edhocExporter done')
    (acts : List (Act L))
    (hauth : AuthenticMessage3 prkOut (run Pair.step s₀ acts .a).dev
      (run Pair.step s₀ acts .b).dev) :
    let s := run Pair.step s₀ acts
    (∀ lmkI lmkR, (s .a).dev.lmk? (s₀ .a).cfg = some lmkI →
      (s .b).dev.lmk? (s₀ .b).cfg = some lmkR →
        (lmkI = lmkR ↔ (s₀ .a).cfg.corruptLmk = (s₀ .b).cfg.corruptLmk)) ∧
    (Allowed Pair.step OwnFrames s₀ acts → (s₀ .a).cfg.corruptLmk ≠ (s₀ .b).cfg.corruptLmk →
      ∀ x, (s x).dev.state ≠ .complete ∧
        ∀ rx ∈ (s x).rxQueue.items, rx.IsControl → rx.srcMac ≠ (s₀ x).cfg.peerMac) := by
  intro s
  have hequal (lmkI lmkR : Lmk) (hI : (s .a).dev.lmk? (s₀ .a).cfg = some lmkI)
      (hR : (s .b).dev.lmk? (s₀ .b).cfg = some lmkR) :
      lmkI = lmkR ↔ (s₀ .a).cfg.corruptLmk = (s₀ .b).cfg.corruptLmk := by
    obtain ⟨lmk, rfl, rfl⟩ := installed_from_one hboot hmut hexp hauth hI hR
    exact lmkToInstall_inj _ _ lmk
  refine ⟨hequal, fun hown hne => ?_⟩
  have hcfg (x : Side) : (s x).cfg = (s₀ x).cfg :=
    (grows_pair (fun x => inv_booted (hboot x)) acts x).1
  have hnever : ¬ s.Agreed := by
    rintro ⟨lmk, hlmk⟩
    have hI := hlmk .a
    have hR := hlmk .b
    rw [hcfg] at hI hR
    exact hne ((hequal lmk lmk hI hR).mp rfl)
  have hconf : Confirms s := confirms_ownFrames hboot hown
  refine fun x => ⟨fun hc => hnever (hconf.complete x hc), fun rx hrx hctl hsrc => ?_⟩
  exact hnever (hconf.queued x rx hrx hctl (by rw [hcfg]; exact hsrc))

end Boards

/-- The responder corrupts its LMK: the two are installed and differ, and nobody completes. -/
theorem corrupted_key_test_sample :
    let s := run Pair.step Pair.corrupted (sampleActs.take 11)
    (∃ lmkI lmkR, (s .a).dev.lmk? (Config.sample .initiator) = some lmkI ∧
      (s .b).dev.lmk? (Pair.corrupted .b).cfg = some lmkR ∧ lmkI ≠ lmkR) ∧
      ∀ x, (s x).dev.state ≠ .complete := by
  intro s
  have hauth : AuthenticMessage3 (fun done => done) (s .a).dev (s .b).dev :=
    authenticMessage3_of_shown (by decide) (by decide)
  have hmut : Mutual (Pair.corrupted .a).cfg.uncorrupted (Pair.corrupted .b).cfg.uncorrupted := by
    decide
  obtain ⟨hequal, hnever⟩ :=
    corrupted_key_test booted_corrupted hmut (fun _ _ => congrArg _) _ hauth
  obtain ⟨lmkI, hI⟩ : ∃ lmk, (s .a).dev.lmk? (Config.sample .initiator) = some lmk :=
    Option.isSome_iff_exists.mp (by decide)
  obtain ⟨lmkR, hR⟩ : ∃ lmk, (s .b).dev.lmk? (Pair.corrupted .b).cfg = some lmk :=
    Option.isSome_iff_exists.mp (by decide)
  refine ⟨⟨lmkI, lmkR, hI, hR, fun h => absurd ((hequal lmkI lmkR hI hR).mp h) (by decide)⟩, ?_⟩
  exact fun x => (hnever (by decide) (by decide) x).1

end EspNowEdhoc
