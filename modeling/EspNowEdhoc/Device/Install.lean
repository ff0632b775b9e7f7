import EspNowEdhoc.Device.Task

/-!
# What an installation leaves behind

`derive_and_install_lmk` is a chain of calls, and it returns at the first that fails. There is no
roll-back: the last call reads back an entry that is already written.

* `InstallEnd`, **`deriveAndInstallLmk_eq`**: the three ways an installation ends;
  `deriveAndInstallLmk_espNow`: it is an export and a call of the key manager.
* **`install_entry`**: the entry of the peer is new exactly when the read-back is reached; the
  result tells the two apart unless the read-back itself fails.
-/

set_option autoImplicit false

namespace EspNowEdhoc

open Runs

variable {L : Lakers}

/-! ## The exported LMK -/

/-- The LMK a session exports, once it is complete. -/
def Session.exportedLmk? (s : Session L) : Option Lmk := do
  return exportLmk (← s.done?) (← s.exporterContext?)

theorem Session.exportedLmk?_isSome (s : Session L) :
    s.exportedLmk?.isSome ↔ s.phase? = some .done := by
  rw [← s.done?_isSome]
  rcases s with _ | ⟨phase, ctx⟩ | ⟨phase, ctx⟩
  · simp [exportedLmk?, done?]
  · cases phase <;> simp [exportedLmk?, done?, exporterContext?]
  · cases phase <;> simp [exportedLmk?, done?, exporterContext?]

/-- **What is installed**, byte by byte: the exporter output under the label of the LMK, with a bit
of byte 0 flipped by the macro. -/
theorem get_lmkToInstall (cfg : Config) (done : L.Done) (context : ExporterContext) (i : Fin 16) :
    (cfg.lmkToInstall (exportLmk done context)).get i =
      (L.edhocExporter done 0xF0 context.toList 16).get i ^^^
        (if cfg.corruptLmk ∧ i = 0 then 1 else 0) := by
  unfold Config.lmkToInstall exportLmk exporterLabelEspnowLmk
  by_cases hcorrupt : cfg.corruptLmk = true
  · rw [if_pos hcorrupt, Bytes.get_modify]
    by_cases hi : i = 0
    · rw [if_pos (by rw [hi]; rfl), if_pos ⟨hcorrupt, hi⟩]
    · rw [if_neg fun h => hi (Fin.ext h.symm), if_neg fun h => hi h.2, UInt8.xor_zero]
  · rw [if_neg hcorrupt, if_neg fun h => hcorrupt h.1, UInt8.xor_zero]

theorem Session.exportedLmk?_eq_some {s : Session L} {lmk : Lmk} : s.exportedLmk? = some lmk ↔
    ∃ done ctx, s.done? = some done ∧ s.exporterContext? = some ctx ∧ lmk = exportLmk done ctx := by
  rw [exportedLmk?]
  cases s.done? <;> cases s.exporterContext? <;> simp [eq_comm]

theorem exportEspnowLmk_eq (buffer : List UInt8) (s : Session L) :
    lakersEdhocExportEspnowLmk (some buffer) s =
      match s.exportedLmk? with
      | some lmk => ⟨.ok, s, some (lmk.toList ++ buffer.drop 16), none⟩
      | none => ⟨.wrongState, s, some buffer, none⟩ := by
  rcases s with _ | ⟨phase, ctx⟩ | ⟨phase, ctx⟩
  · rfl
  · cases phase <;> rfl
  · cases phase <;> rfl

/-! ## The installation -/

section Install

variable (cfg : Config) (env : Env L) (d : Device L)

/-- How an installation ends: its result, the driver after it, and its events. -/
inductive InstallEnd (session : Session L) (n : EspNow) :
    EspErr → EspNow → List (Event L) → Prop
  | notExported (ret : FfiRet L) (hexp : session.exportedLmk? = none) :
      InstallEnd session n espFail n [.exportLmk ret]
  | notInstalled {ret : FfiRet L} {lmk : Lmk} {err : EspErr} {n' : EspNow}
      (hexp : session.exportedLmk? = some lmk) (hret : ret.status = .ok)
      (hkm : keyManagerEnableDerivedEspnowEncryption env.esp cfg.espnowChannel (some cfg.peerMac)
        (some (cfg.lmkToInstall lmk)) n = (err, n')) (herr : err ≠ espOk) :
      InstallEnd session n err n' [.exportLmk ret]
  | installed {ret : FfiRet L} {lmk : Lmk} {n' : EspNow}
      (hexp : session.exportedLmk? = some lmk) (hret : ret.status = .ok)
      (hkm : keyManagerEnableDerivedEspnowEncryption env.esp cfg.espnowChannel (some cfg.peerMac)
        (some (cfg.lmkToInstall lmk)) n = (espOk, n')) :
      InstallEnd session n espOk n' [.exportLmk ret, .installed (cfg.lmkToInstall lmk)]

/-- **What an installation does** depends on the session and the driver; the session is kept. -/
theorem deriveAndInstallLmk_eq (session : Session L) (n : EspNow) :
    ∃ err n' es, InstallEnd cfg env session n err n' es ∧
      ∀ d : Device L, d.session = session → d.espNow = n → deriveAndInstallLmk cfg env d =
        (err, { d with espNow := n', trace := d.trace ++ es }) := by
  have hret := exportEspnowLmk_eq (List.replicate 16 0) session
  cases hexp : session.exportedLmk? with
  | none =>
    rw [hexp] at hret
    refine ⟨_, _, _, .notExported
      (lakersEdhocExportEspnowLmk (some (List.replicate 16 0)) session) hexp, ?_⟩
    rintro d rfl rfl
    rw [deriveAndInstallLmk, hret]
    rfl
  | some lmk =>
    rw [hexp] at hret
    cases hkm : keyManagerEnableDerivedEspnowEncryption env.esp cfg.espnowChannel
      (some cfg.peerMac) (some (cfg.lmkToInstall lmk)) n with
    | mk err n' =>
      by_cases hok : err = espOk
      · subst hok
        refine ⟨_, _, _, .installed hexp (congrArg FfiRet.status hret) hkm, ?_⟩
        rintro d rfl rfl
        simp only [deriveAndInstallLmk, hret, Option.getD_some, Bytes.fill_toList_append, hkm,
          Device.log, List.append_assoc]
        rfl
      · refine ⟨_, _, _, .notInstalled hexp (congrArg FfiRet.status hret) hkm hok, ?_⟩
        rintro d rfl rfl
        simp only [deriveAndInstallLmk, hret, Option.getD_some, Bytes.fill_toList_append, hkm]
        rw [if_neg (not_not.mpr rfl), if_pos hok]

theorem deriveAndInstallLmk_espNow :
    let r := deriveAndInstallLmk cfg env d
    d.session.exportedLmk? = none ∧ r.1 = espFail ∧ r.2.espNow = d.espNow ∨
      ∃ lmk, d.session.exportedLmk? = some lmk ∧ (r.1, r.2.espNow) =
        keyManagerEnableDerivedEspnowEncryption env.esp cfg.espnowChannel (some cfg.peerMac)
          (some (cfg.lmkToInstall lmk)) d.espNow := by
  obtain ⟨err, n', es, hend, heq⟩ := deriveAndInstallLmk_eq cfg env d.session d.espNow
  dsimp only
  rw [heq d rfl rfl]
  cases hend with
  | notExported _ hexp => exact .inl ⟨hexp, rfl, rfl⟩
  | notInstalled hexp _ hkm _ => exact .inr ⟨_, hexp, hkm.symm⟩
  | installed hexp _ hkm => exact .inr ⟨_, hexp, hkm.symm⟩

theorem deriveAndInstallLmk_session : (deriveAndInstallLmk cfg env d).2.session = d.session := by
  obtain ⟨err, n', es, -, heq⟩ := deriveAndInstallLmk_eq cfg env d.session d.espNow
  rw [heq d rfl rfl]

/-- The export, the PMK and the entry succeed, so the entry is read back. -/
def ReachesReadBack : Prop :=
  d.session.phase? = some .done ∧ env.esp.setPmk = espOk ∧
    env.esp.writePeer cfg.peerMac d.espNow = espOk

/-- The entry an installation writes for its peer. -/
def Config.installedPeer (lmk : Lmk) : PeerInfo :=
  encryptedPeer cfg.espnowChannel cfg.peerMac (cfg.lmkToInstall lmk)

variable {cfg env d}

theorem InstallEnd.mem {session : Session L} {n n' : EspNow} {err : EspErr} {es : List (Event L)}
    (h : InstallEnd cfg env session n err n' es) :
    ∀ e ∈ es, (∃ ret, e = .exportLmk ret) ∨ ∃ lmk, e = .installed lmk := by
  cases h <;> simp

theorem install_cut_short (h : ¬ ReachesReadBack cfg env d) :
    let r := deriveAndInstallLmk cfg env d
    r.1 ≠ espOk ∧ r.2.espNow.peers = d.espNow.peers := by
  rcases deriveAndInstallLmk_espNow cfg env d with ⟨-, herr, hnow⟩ | ⟨lmk, hexp, hkm⟩
  · exact ⟨by rw [herr]; decide, by rw [hnow]⟩
  have hdone : d.session.phase? = some .done := by
    rw [← Session.exportedLmk?_isSome, hexp]
    rfl
  rw [keyManager_eq] at hkm
  by_cases hpmk : env.esp.setPmk = espOk
  · have hwrite : env.esp.writePeer cfg.peerMac d.espNow ≠ espOk := fun hw => h ⟨hdone, hpmk, hw⟩
    rw [if_neg (not_not.mpr hpmk), if_pos hwrite, Prod.mk.injEq] at hkm
    exact ⟨by rwa [hkm.1], by rw [hkm.2]⟩
  · rw [if_pos hpmk, Prod.mk.injEq] at hkm
    exact ⟨by rwa [hkm.1], by rw [hkm.2]⟩

theorem install_reaches (h : ReachesReadBack cfg env d) :
    let r := deriveAndInstallLmk cfg env d
    r.1 = env.esp.getPeer ∧ ∃ lmk, d.session.exportedLmk? = some lmk ∧
      r.2.espNow.peers =
        Function.update d.espNow.peers cfg.peerMac (some (cfg.installedPeer lmk)) := by
  obtain ⟨hdone, hpmk, hwrite⟩ := h
  rcases deriveAndInstallLmk_espNow cfg env d with ⟨hnone, -⟩ | ⟨lmk, hexp, hkm⟩
  · rw [← Session.exportedLmk?_isSome, hnone] at hdone
    cases hdone
  · rw [keyManager_eq, if_neg (not_not.mpr hpmk), if_neg (not_not.mpr hwrite),
      Prod.mk.injEq] at hkm
    exact ⟨hkm.1, lmk, hexp, by rw [hkm.2]; rfl⟩

end Install

/-! ## The entry of the peer -/

/-- The device that has sent message_3 and waits for the completion ACK. -/
def Device.sampleDone : Device Lakers.sample :=
  run (Device.handle (Config.sample .initiator)) (Device.sample .initiator)
    ((sampleInputs .initiator).take 2)

/-- **No roll-back.** When only the read-back fails, the installation returns an error and the
unencrypted entry has become an encrypted one. -/
theorem install_no_roll_back :
    let cfg := Config.sample .initiator
    let d := Device.sampleDone
    let r := deriveAndInstallLmk cfg ⟨(0 : UInt8), { EspNowRes.ok with getPeer := espFail }⟩ d
    r.1 = espFail ∧ r.2.entry cfg.peerMac ≠ d.entry cfg.peerMac ∧
      (d.entry cfg.peerMac).map PeerInfo.encrypt = some false ∧
      (r.2.entry cfg.peerMac).map PeerInfo.encrypt = some true := by
  decide

/-- **What an installation leaves behind.** If it fails, the entry of the peer is as before, unless
only the read-back fails. If it succeeds, or only the read-back fails, the entry is encrypted under
the exporter output of the completed session, with a bit of byte 0 flipped by the macro. Every other
entry is as before. -/
theorem install_entry (cfg : Config) (env : Env L) (d : Device L) :
    let r := deriveAndInstallLmk cfg env d
    let readBackFails := ReachesReadBack cfg env d ∧ env.esp.getPeer ≠ espOk
    (r.1 ≠ espOk → ¬ readBackFails → r.2.entry cfg.peerMac = d.entry cfg.peerMac) ∧
      (readBackFails → r.1 ≠ espOk) ∧
      (r.1 = espOk ∨ readBackFails → ∃ done ctx lmk, d.session.done? = some done ∧
        d.session.exporterContext? = some ctx ∧
        r.2.entry cfg.peerMac = some ⟨cfg.peerMac, lmk, cfg.espnowChannel, true⟩ ∧
        ∀ i, lmk.get i = (L.edhocExporter done 0xF0 ctx.toList 16).get i ^^^
          (if cfg.corruptLmk ∧ i = 0 then 1 else 0)) ∧
      ∀ mac, mac ≠ cfg.peerMac → r.2.entry mac = d.entry mac := by
  dsimp only [Device.entry]
  by_cases hreach : ReachesReadBack cfg env d
  · obtain ⟨herr, lmk, hexp, hpeers⟩ := install_reaches hreach
    obtain ⟨done, ctx, hdone, hctx, rfl⟩ := Session.exportedLmk?_eq_some.mp hexp
    refine ⟨fun hfail hread => absurd ⟨hreach, by rwa [← herr]⟩ hread,
      fun hread => by rw [herr]; exact hread.2, fun _ => ⟨done, ctx, _, hdone, hctx, ?_,
        get_lmkToInstall cfg done ctx⟩, fun mac hmac => ?_⟩
    · rw [hpeers, Function.update_self]
      rfl
    · rw [hpeers, Function.update_of_ne hmac]
  · obtain ⟨herr, hpeers⟩ := install_cut_short hreach
    rw [hpeers]
    refine ⟨fun _ _ => rfl, fun hread => absurd hread.1 hreach, ?_, fun _ _ => rfl⟩
    rintro (hok | hread)
    · exact absurd hok herr
    · exact absurd hread.1 hreach

/-- A board with the macro installs the exporter output with byte 0 changed, and no other byte. -/
theorem install_entry_sample :
    let cfg := { Config.sample .initiator with corruptLmk := true }
    ∃ lmk ctx, (deriveAndInstallLmk cfg Env.sample .sampleDone).2.entry cfg.peerMac =
        some ⟨cfg.peerMac, lmk, 1, true⟩ ∧
      lmk.get 0 = (Lakers.sample.edhocExporter (7, 9) 0xF0 ctx 16).get 0 ^^^ 1 ∧
      lmk.get 1 = (Lakers.sample.edhocExporter (7, 9) 0xF0 ctx 16).get 1 := by
  intro cfg
  obtain ⟨done, ctx, lmk, hdone, -, hentry, hlmk⟩ :=
    (install_entry cfg Env.sample .sampleDone).2.2.1 (.inl (by decide))
  cases hdone.symm.trans (show Device.sampleDone.session.prkOut? = some (7, 9) by decide)
  exact ⟨lmk, ctx.toList, hentry, hlmk 0, (hlmk 1).trans UInt8.xor_zero⟩

end EspNowEdhoc
