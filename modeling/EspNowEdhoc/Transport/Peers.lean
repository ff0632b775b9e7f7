import EspNowEdhoc.Transport.EspNow
import EspNowEdhoc.Lib.Runs

/-!
# The peer table under the key manager

* `KeyOp`: the calls by which the program writes the peer table. `KeyOp.key`: the peer a call is
  about, and the key it is to have, `none` for an unencrypted peer. `keyedPeer`: the entry for it.
* **`exec_cases`**: a call writes the entry for its key, or fails and writes no entry.
* `PeersSound`: the entries are those of keys, and an LMK comes with the PMK.
* **`peer_table_runs`**: the peer table over any calls, whatever the driver returns.
-/

set_option autoImplicit false

namespace EspNowEdhoc

open Runs

/-! ## The static keys -/

/-- `ESPNOW_STATIC_LMK`. -/
def espnowStaticLmk : Lmk :=
  ⟨[0x20, 0x21, 0x22, 0x23, 0x24, 0x25, 0x26, 0x27,
    0x28, 0x29, 0x2A, 0x2B, 0x2C, 0x2D, 0x2E, 0x2F], rfl⟩

/-- `key_manager_enable_static_espnow_encryption`. -/
def keyManagerEnableStaticEspnowEncryption (res : EspNowRes) (channel : UInt8) (peerMac : Mac)
    (n : EspNow) : EspErr × EspNow :=
  let (err, n) := espnowTransportSetPmk res (some espnowStaticPmk) n
  if err ≠ espOk then (err, n)
  else
    let (err, n) := espnowTransportAddPeer res channel peerMac true (some espnowStaticLmk) n
    if err ≠ espOk then (err, n) else (espOk, n)

/-! ## Calls -/

/-- A call that writes the peer table: `espnow_transport_add_peer` as `app_main` calls it, and the
two functions of `key_manager.c`. -/
inductive KeyOp
  | addPeer (peerMac : Mac)
  | enableStatic (peerMac : Mac)
  | enableDerived (peerMac : Option Mac) (lmk : Option Lmk)

/-- The call, with what the driver returns. -/
def KeyOp.exec (channel : UInt8) (res : EspNowRes) (n : EspNow) : KeyOp → EspErr × EspNow
  | addPeer peerMac => espnowTransportAddPeer res channel peerMac false none n
  | enableStatic peerMac => keyManagerEnableStaticEspnowEncryption res channel peerMac n
  | enableDerived peerMac lmk => keyManagerEnableDerivedEspnowEncryption res channel peerMac lmk n

def keyStep (channel : UInt8) (n : EspNow) (op : KeyOp × EspNowRes) : EspNow :=
  (op.1.exec channel op.2 n).2

/-- The peer of a call and its key; there is none for a null argument. -/
def KeyOp.key : KeyOp → Option (Mac × Option Lmk)
  | addPeer peerMac => some (peerMac, none)
  | enableStatic peerMac => some (peerMac, some espnowStaticLmk)
  | enableDerived (some peerMac) (some lmk) => some (peerMac, some lmk)
  | enableDerived _ _ => none

/-- The entry of a peer with this key. -/
def keyedPeer (channel : UInt8) (peerMac : Mac) : Option Lmk → PeerInfo
  | none => { PeerInfo.zero with peerAddr := peerMac, channel := channel }
  | some lmk => encryptedPeer channel peerMac lmk

/-! ## One call -/

/-- How a call ends: it writes the entry for its key, or it fails. -/
inductive KeyEnd (channel : UInt8) (op : KeyOp) (n : EspNow) : EspErr → EspNow → Prop
  | failed {err : EspErr} {n' : EspNow} (herr : err ≠ espOk) (hpeers : n'.peers = n.peers)
      (hpmk : n'.pmk = n.pmk ∨ n'.pmk = some espnowStaticPmk) : KeyEnd channel op n err n'
  | written {err : EspErr} {n' : EspNow} (peerMac : Mac) (key : Option Lmk)
      (hkey : op.key = some (peerMac, key))
      (hpeers : n'.peers = Function.update n.peers peerMac (some (keyedPeer channel peerMac key)))
      (hpmk : n'.pmk = n.pmk ∨ n'.pmk = some espnowStaticPmk)
      (hlmk : key.isSome → n'.pmk = some espnowStaticPmk) : KeyEnd channel op n err n'

theorem espnowTransportAddPeer_unencrypted (res : EspNowRes) (channel : UInt8) (peerMac : Mac)
    (n : EspNow) :
    espnowTransportAddPeer res channel peerMac false none n =
      (res.writePeer peerMac n,
        if res.writePeer peerMac n = espOk then n.setPeer (keyedPeer channel peerMac none)
        else n) := by
  simp only [espnowTransportAddPeer, EspNowRes.writePeer, Bool.false_eq_true, false_and, if_false]
  split <;> rfl

/-- The static installation is the derived one without the read-back. -/
theorem keyManagerStatic_eq (res : EspNowRes) (channel : UInt8) (peerMac : Mac) (n : EspNow) :
    keyManagerEnableStaticEspnowEncryption res channel peerMac n =
      if res.setPmk ≠ espOk then (res.setPmk, n)
      else if res.writePeer peerMac n ≠ espOk then
        (res.writePeer peerMac n, { n with pmk := some espnowStaticPmk })
      else
        (espOk, EspNow.setPeer { n with pmk := some espnowStaticPmk }
          (encryptedPeer channel peerMac espnowStaticLmk)) := by
  have hset : espnowTransportSetPmk res (some espnowStaticPmk) n =
      (res.setPmk, if res.setPmk = espOk then { n with pmk := some espnowStaticPmk } else n) := rfl
  simp only [keyManagerEnableStaticEspnowEncryption, hset, espnowTransportAddPeer_encrypted]
  by_cases hpmk : res.setPmk = espOk
  · rw [if_neg (not_not.mpr hpmk), if_neg (not_not.mpr hpmk), if_pos hpmk]
    have hpeer : res.writePeer peerMac { n with pmk := some espnowStaticPmk } =
        res.writePeer peerMac n := rfl
    rw [hpeer]
    by_cases hwrite : res.writePeer peerMac n = espOk
    · rw [if_neg (not_not.mpr hwrite), if_neg (not_not.mpr hwrite), if_pos hwrite]
    · rw [if_pos hwrite, if_pos hwrite, if_neg hwrite]
  · rw [if_pos hpmk, if_pos hpmk, if_neg hpmk]

theorem exec_cases (channel : UInt8) (res : EspNowRes) (n : EspNow) (op : KeyOp) :
    KeyEnd channel op n (op.exec channel res n).1 (op.exec channel res n).2 := by
  have hinvalid : espErrInvalidArg ≠ espOk := by decide
  cases op with
  | addPeer peerMac =>
    rw [KeyOp.exec, espnowTransportAddPeer_unencrypted]
    by_cases hwrite : res.writePeer peerMac n = espOk
    · rw [if_pos hwrite]
      exact .written peerMac none rfl rfl (.inl rfl) nofun
    · rw [if_neg hwrite]
      exact .failed hwrite rfl (.inl rfl)
  | enableStatic peerMac =>
    rw [KeyOp.exec, keyManagerStatic_eq]
    split
    · next hpmk => exact .failed hpmk rfl (.inl rfl)
    split
    · next hwrite => exact .failed hwrite rfl (.inr rfl)
    · exact .written peerMac (some espnowStaticLmk) rfl rfl (.inr rfl) fun _ => rfl
  | enableDerived peerMac lmk =>
    cases peerMac with
    | none => exact .failed hinvalid rfl (.inl rfl)
    | some peerMac =>
      cases lmk with
      | none => exact .failed hinvalid rfl (.inl rfl)
      | some lmk =>
        rw [KeyOp.exec, keyManager_eq]
        split
        · next hpmk => exact .failed hpmk rfl (.inl rfl)
        split
        · next hwrite => exact .failed hwrite rfl (.inr rfl)
        · exact .written peerMac (some lmk) rfl rfl (.inr rfl) fun _ => rfl

/-! ## Runs -/

section Runs

variable {channel : UInt8} {n : EspNow} {ops : List (KeyOp × EspNowRes)} {mac : Mac}

/-- Every entry is one that a call so far has asked for, and an LMK comes with the PMK. -/
def PeersSound (channel : UInt8) (ops : List (KeyOp × EspNowRes)) (n : EspNow) : Prop :=
  ∀ mac e, n.peers mac = some e → ∃ op ∈ ops, ∃ key, op.1.key = some (mac, key) ∧
    e = keyedPeer channel mac key ∧ (key.isSome → n.pmk = some espnowStaticPmk)

theorem peersSound_step (h : PeersSound channel ops n) (op : KeyOp × EspNowRes) :
    PeersSound channel (ops ++ [op]) (keyStep channel n op) := by
  intro mac e he
  -- an entry of before is kept, and so is its PMK
  have hold {n' : EspNow} (hpmk : n'.pmk = n.pmk ∨ n'.pmk = some espnowStaticPmk)
      (he : n.peers mac = some e) : ∃ op' ∈ ops ++ [op], ∃ key, op'.1.key = some (mac, key) ∧
        e = keyedPeer channel mac key ∧ (key.isSome → n'.pmk = some espnowStaticPmk) := by
    obtain ⟨op', hmem, key, hkey, heq, hlmk⟩ := h mac e he
    refine ⟨op', List.mem_append_left _ hmem, key, hkey, heq, fun hsome => ?_⟩
    rcases hpmk with hsame | hstatic
    · rw [hsame, hlmk hsome]
    · exact hstatic
  cases exec_cases channel op.2 n op.1 with
  | failed _ hpeers hpmk => exact hold hpmk (by rw [← hpeers]; exact he)
  | written peerMac key hkey hpeers hpmk hlmk =>
    by_cases hmac : mac = peerMac
    · subst hmac
      rw [keyStep, hpeers, Function.update_self, Option.some.injEq] at he
      exact ⟨op, List.mem_append_right _ (List.mem_singleton_self op), key, hkey, he.symm, hlmk⟩
    · rw [keyStep, hpeers, Function.update_of_ne hmac] at he
      exact hold hpmk he

theorem peersSound_run (channel : UInt8) (ops : List (KeyOp × EspNowRes)) :
    PeersSound channel ops (run (keyStep channel) .init ops) :=
  run_hist_inv (I := PeersSound channel) (G := fun _ _ => True) (fun _ _ he => by cases he)
    (fun _ _ op h _ => peersSound_step h op) (allowed_of_forall fun _ _ _ => trivial)

theorem keyStep_of_ne {op : KeyOp × EspNowRes} (hne : ∀ key, op.1.key ≠ some (mac, key)) :
    (keyStep channel n op).peers mac = n.peers mac := by
  cases exec_cases channel op.2 n op.1 with
  | failed _ hpeers _ => exact congrFun hpeers mac
  | written peerMac key hkey hpeers _ _ =>
    have hmac : mac ≠ peerMac := by
      rintro rfl
      exact hne key hkey
    rw [keyStep, hpeers, Function.update_of_ne hmac]

theorem keyStep_of_ok {op : KeyOp × EspNowRes} {key : Option Lmk}
    (hkey : op.1.key = some (mac, key)) (hok : (op.1.exec channel op.2 n).1 = espOk) :
    (keyStep channel n op).peers mac = some (keyedPeer channel mac key) := by
  cases exec_cases channel op.2 n op.1 with
  | failed herr _ _ => exact absurd hok herr
  | written peerMac key' hkey' hpeers _ _ =>
    rw [hkey] at hkey'
    cases hkey'
    rw [keyStep, hpeers, Function.update_self]

/-- **The peer table over runs.** The program calls `espnow_transport_add_peer` and the functions of
`key_manager.c` in any order, and the driver returns anything. Every entry is then one that a call
has asked for, and if it is encrypted, the PMK is installed. After a call that has returned
`ESP_OK`, the entry of its peer is the one it has asked for, and stays so through all calls for
other peers. -/
theorem peer_table_runs (channel : UInt8) (ops : List (KeyOp × EspNowRes)) :
    let n := run (keyStep channel) .init ops
    (∀ mac e, n.peers mac = some e → ∃ op ∈ ops, ∃ key, op.1.key = some (mac, key) ∧
      e = keyedPeer channel mac key ∧ (key.isSome → n.pmk = some espnowStaticPmk)) ∧
    ∀ op more mac key, op.1.key = some (mac, key) → (op.1.exec channel op.2 n).1 = espOk →
      (∀ op' ∈ more, ∀ key', op'.1.key ≠ some (mac, key')) →
        (run (keyStep channel) n (op :: more)).peers mac = some (keyedPeer channel mac key) := by
  intro n
  refine ⟨?_, fun op more mac key hkey hok hother => ?_⟩
  · exact peersSound_run channel ops
  · have hwritten := keyStep_of_ok hkey hok
    rw [run_cons]
    generalize keyStep channel n op = n' at hwritten
    induction more generalizing n' with
    | nil => exact hwritten
    | cons op' more ih =>
      obtain ⟨hne, hother⟩ := List.forall_mem_cons.mp hother
      exact ih hother _ ((keyStep_of_ne hne).trans hwritten)

end Runs

end EspNowEdhoc
