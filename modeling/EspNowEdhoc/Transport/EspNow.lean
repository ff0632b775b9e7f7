import EspNowEdhoc.Ffi.Session
import EspNowEdhoc.Lib.BoundedQueue
import Mathlib.Logic.Function.Basic

/-!
# The ESP-NOW driver and `espnow_transport.c`

The driver is not part of the repository. Its state is the PMK and the peer table; the result of
each call comes from the environment (`EspNowRes`), a call that returns `ESP_OK` does what it is
documented to do and a call that fails changes nothing.

* `keyManagerEnableDerivedEspnowEncryption`, from `key_manager.c`; **`keyManager_eq`** says what it
  does call by call, `keyManager_peers` what it can do to the peer table.
-/

namespace EspNowEdhoc

/-- `esp_err_t`. -/
abbrev EspErr : Type := ℤ

def espOk : EspErr := 0
def espFail : EspErr := -1
def espErrInvalidArg : EspErr := 0x102
def espErrInvalidSize : EspErr := 0x104

/-- `ESPNOW_TRANSPORT_RX_QUEUE_LEN`. -/
def espnowTransportRxQueueLen : ℕ := 10

/-- `ESPNOW_TRANSPORT_MAX_PAYLOAD_LEN`. -/
def espnowTransportMaxPayloadLen : ℕ := 250

/-! ## The driver -/

/-- `esp_now_peer_info_t`; the interface is always `WIFI_IF_STA`. -/
structure PeerInfo where
  peerAddr : Mac
  lmk : Lmk
  channel : UInt8
  encrypt : Bool
  deriving DecidableEq

/-- `esp_now_peer_info_t peer = {0}`. -/
def PeerInfo.zero : PeerInfo := ⟨Bytes.zeroed 6, Bytes.zeroed 16, 0, false⟩

/-- The driver's PMK and peer table. -/
structure EspNow where
  pmk : Option (Bytes 16)
  peers : Mac → Option PeerInfo

/-- After `esp_now_init`. -/
def EspNow.init : EspNow := ⟨none, fun _ => none⟩

/-- What the driver calls return; no step of the program makes one of them twice. -/
structure EspNowRes where
  send : EspErr
  setPmk : EspErr
  modPeer : EspErr
  addPeer : EspErr
  getPeer : EspErr
  deriving DecidableEq

/-- Every driver call succeeds. -/
def EspNowRes.ok : EspNowRes := ⟨espOk, espOk, espOk, espOk, espOk⟩

/-- `esp_now_set_pmk`. -/
def espNowSetPmk (res : EspNowRes) (pmk : Bytes 16) (n : EspNow) : EspErr × EspNow :=
  (res.setPmk, if res.setPmk = espOk then { n with pmk := some pmk } else n)

/-- `esp_now_is_peer_exist`. -/
def espNowIsPeerExist (peerAddr : Mac) (n : EspNow) : Bool := (n.peers peerAddr).isSome

def EspNow.setPeer (n : EspNow) (peer : PeerInfo) : EspNow :=
  { n with peers := Function.update n.peers peer.peerAddr (some peer) }

/-- `esp_now_mod_peer`. -/
def espNowModPeer (res : EspNowRes) (peer : PeerInfo) (n : EspNow) : EspErr × EspNow :=
  (res.modPeer, if res.modPeer = espOk then n.setPeer peer else n)

/-- `esp_now_add_peer`. -/
def espNowAddPeer (res : EspNowRes) (peer : PeerInfo) (n : EspNow) : EspErr × EspNow :=
  (res.addPeer, if res.addPeer = espOk then n.setPeer peer else n)

/-- `esp_now_get_peer`: its result and the peer it fills in. -/
def espNowGetPeer (res : EspNowRes) (peerAddr : Mac) (n : EspNow) : EspErr × PeerInfo :=
  (res.getPeer, if res.getPeer = espOk then (n.peers peerAddr).getD .zero else .zero)

/-- A frame given to `esp_now_send`: the bytes, the entry of its destination at that moment, and
what the call returned. -/
structure SentFrame where
  dest : Mac
  data : List UInt8
  entry : Option PeerInfo
  result : EspErr
  deriving DecidableEq

/-- `esp_now_send`. -/
def espNowSend (res : EspNowRes) (peerAddr : Mac) (data : List UInt8) (n : EspNow) : SentFrame :=
  ⟨peerAddr, data, n.peers peerAddr, res.send⟩

/-! ## `espnow_transport.c` -/

/-- `espnow_transport_set_pmk`. -/
def espnowTransportSetPmk (res : EspNowRes) (pmk : Option (Bytes 16)) (n : EspNow) :
    EspErr × EspNow :=
  match pmk with
  | none => (espErrInvalidArg, n)
  | some pmk => espNowSetPmk res pmk n

/-- `espnow_transport_add_peer`; `channel` is `s_channel`. -/
def espnowTransportAddPeer (res : EspNowRes) (channel : UInt8) (peerMac : Mac) (encrypted : Bool)
    (lmk : Option Lmk) (n : EspNow) : EspErr × EspNow :=
  let peer := { PeerInfo.zero with peerAddr := peerMac, channel := channel, encrypt := encrypted }
  if encrypted = true ∧ lmk = none then (espErrInvalidArg, n)
  else
    let peer := if encrypted then { peer with lmk := lmk.getD peer.lmk } else peer
    if espNowIsPeerExist peerMac n then espNowModPeer res peer n else espNowAddPeer res peer n

/-- `espnow_transport_send`: its result, and the frame if it reaches `esp_now_send`. -/
def espnowTransportSend (res : EspNowRes) (peerMac : Option Mac) (data : Option (List UInt8))
    (len : ℕ) (n : EspNow) : EspErr × Option SentFrame :=
  match peerMac, data with
  | some peerMac, some data =>
    if len = 0 ∨ len > espnowTransportMaxPayloadLen then (espErrInvalidArg, none)
    else
      let frame := espNowSend res peerMac (data.take len) n
      (frame.result, some frame)
  | _, _ => (espErrInvalidArg, none)

/-- `espnow_rx_packet_t`. -/
structure RxPacket where
  srcMac : Mac
  data : Bytes 250
  dataLen : ℤ
  deriving DecidableEq

/-- The receive queue, by copy and of fixed capacity. -/
abbrev RxQueue : Type := BoundedQueue RxPacket espnowTransportRxQueueLen

/-- The packet of a receive callback. -/
def rxPacket (srcAddr : Mac) (data : List UInt8) (dataLen : ℤ) : RxPacket :=
  ⟨srcAddr, Bytes.fill 250 (data.take dataLen.toNat), dataLen⟩

/-- `espnow_recv_cb`. `recvInfo` is `none` for a null `recv_info`, `some none` for a null
`src_addr`. -/
def espnowRecvCb (recvInfo : Option (Option Mac)) (data : Option (List UInt8)) (dataLen : ℤ)
    (queue : RxQueue) : RxQueue :=
  match recvInfo, data with
  | some (some srcAddr), some data =>
    if dataLen ≤ 0 then queue
    else if dataLen > espnowTransportMaxPayloadLen then queue
    else queue.push (rxPacket srcAddr data dataLen)
  | _, _ => queue

/-- `espnow_transport_recv`, with the time-out expired when nothing is queued. -/
def espnowTransportRecv (queue : RxQueue) : Option (RxPacket × RxQueue) := queue.pop

theorem mem_espnowRecvCb {recvInfo : Option (Option Mac)} {data : Option (List UInt8)} {dataLen : ℤ}
    {queue : RxQueue} {p : RxPacket} (h : p ∈ (espnowRecvCb recvInfo data dataLen queue).items) :
    p ∈ queue.items ∨ ∃ src bytes, recvInfo = some (some src) ∧ data = some bytes ∧ 0 < dataLen ∧
      dataLen ≤ 250 ∧ p = rxPacket src bytes dataLen := by
  unfold espnowRecvCb at h
  split at h
  · split at h
    · exact .inl h
    split at h
    · exact .inl h
    · next hpos hle =>
      refine (BoundedQueue.mem_push h).imp_right fun hp => ⟨_, _, rfl, rfl, by omega, ?_, hp⟩
      simp only [espnowTransportMaxPayloadLen] at hle
      omega
  · exact .inl h

theorem mem_espnowRecvCb_of_mem {recvInfo : Option (Option Mac)} {data : Option (List UInt8)}
    {dataLen : ℤ} {queue : RxQueue} {p : RxPacket} (h : p ∈ queue.items) :
    p ∈ (espnowRecvCb recvInfo data dataLen queue).items := by
  unfold espnowRecvCb
  split
  · split
    · exact h
    split
    · exact h
    · exact BoundedQueue.mem_push_of_mem _ h
  · exact h

theorem espnowRecvCb_eq_push (src : Mac) {data : List UInt8} (hpos : 0 < data.length)
    (hle : data.length ≤ 250) (queue : RxQueue) :
    espnowRecvCb (some (some src)) (some data) data.length queue =
      queue.push (rxPacket src data data.length) := by
  simp only [espnowRecvCb]
  rw [if_neg (by omega), if_neg (by unfold espnowTransportMaxPayloadLen; omega)]

/-! ## `key_manager.c` -/

/-- `ESPNOW_STATIC_PMK`. -/
def espnowStaticPmk : Bytes 16 :=
  ⟨[0x10, 0x11, 0x12, 0x13, 0x14, 0x15, 0x16, 0x17,
    0x18, 0x19, 0x1A, 0x1B, 0x1C, 0x1D, 0x1E, 0x1F], rfl⟩

/-- `key_manager_enable_derived_espnow_encryption`. -/
def keyManagerEnableDerivedEspnowEncryption (res : EspNowRes) (channel : UInt8)
    (peerMac : Option Mac) (lmk : Option Lmk) (n : EspNow) : EspErr × EspNow :=
  match peerMac, lmk with
  | some peerMac, some lmk =>
    let (err, n) := espnowTransportSetPmk res (some espnowStaticPmk) n
    if err ≠ espOk then (err, n)
    else
      let (err, n) := espnowTransportAddPeer res channel peerMac true (some lmk) n
      if err ≠ espOk then (err, n)
      else
        let (err, peer) := espNowGetPeer res peerMac n
        if err ≠ espOk then (err, n)
        else if peer.encrypt = false then (espFail, n)
        else (espOk, n)
  | _, _ => (espErrInvalidArg, n)

/-- The entry an installation writes. -/
def encryptedPeer (channel : UInt8) (peerMac : Mac) (lmk : Lmk) : PeerInfo :=
  ⟨peerMac, lmk, channel, true⟩

/-- What the write of an entry returns: `esp_now_mod_peer` for a known peer, else
`esp_now_add_peer`. -/
def EspNowRes.writePeer (res : EspNowRes) (peerMac : Mac) (n : EspNow) : EspErr :=
  if espNowIsPeerExist peerMac n then res.modPeer else res.addPeer

theorem espnowTransportAddPeer_encrypted (res : EspNowRes) (channel : UInt8) (peerMac : Mac)
    (lmk : Lmk) (n : EspNow) :
    espnowTransportAddPeer res channel peerMac true (some lmk) n =
      (res.writePeer peerMac n,
        if res.writePeer peerMac n = espOk then n.setPeer (encryptedPeer channel peerMac lmk)
        else n) := by
  simp only [espnowTransportAddPeer, EspNowRes.writePeer, reduceCtorEq, and_false, if_false,
    if_true, Option.getD_some]
  split <;> rfl

theorem espnowTransportAddPeer_init {res : EspNowRes} {channel : UInt8} {peerMac : Mac}
    (h : (espnowTransportAddPeer res channel peerMac false none .init).1 = espOk) :
    (espnowTransportAddPeer res channel peerMac false none .init).2.peers =
      Function.update (fun _ => none) peerMac
        (some { PeerInfo.zero with peerAddr := peerMac, channel := channel }) := by
  have hadd : espnowTransportAddPeer res channel peerMac false none .init =
      espNowAddPeer res { PeerInfo.zero with peerAddr := peerMac, channel := channel } .init := rfl
  rw [hadd] at h ⊢
  have hres : res.addPeer = espOk := h
  rw [espNowAddPeer, if_pos hres]
  rfl

/-- **What an installation does.** It ends at the first call that fails: the PMK, the entry, and the
read-back of the entry, by which time both are written. -/
theorem keyManager_eq (res : EspNowRes) (channel : UInt8) (peerMac : Mac) (lmk : Lmk)
    (n : EspNow) :
    keyManagerEnableDerivedEspnowEncryption res channel (some peerMac) (some lmk) n =
      if res.setPmk ≠ espOk then (res.setPmk, n)
      else if res.writePeer peerMac n ≠ espOk then
        (res.writePeer peerMac n, { n with pmk := some espnowStaticPmk })
      else
        (res.getPeer, EspNow.setPeer { n with pmk := some espnowStaticPmk }
          (encryptedPeer channel peerMac lmk)) := by
  have hset : espnowTransportSetPmk res (some espnowStaticPmk) n =
      (res.setPmk, if res.setPmk = espOk then { n with pmk := some espnowStaticPmk } else n) := rfl
  simp only [keyManagerEnableDerivedEspnowEncryption, hset, espnowTransportAddPeer_encrypted]
  by_cases hpmk : res.setPmk = espOk
  · rw [if_neg (not_not.mpr hpmk), if_neg (not_not.mpr hpmk), if_pos hpmk]
    -- the PMK does not decide how the entry is written
    have hpeer : res.writePeer peerMac { n with pmk := some espnowStaticPmk } =
        res.writePeer peerMac n := rfl
    rw [hpeer]
    generalize ({ n with pmk := some espnowStaticPmk } : EspNow) = n'
    by_cases hwrite : res.writePeer peerMac n = espOk
    · rw [if_neg (not_not.mpr hwrite), if_neg (not_not.mpr hwrite), if_pos hwrite]
      by_cases hget : res.getPeer = espOk
      · -- what is read back is the entry just written
        have hread : espNowGetPeer res peerMac (n'.setPeer (encryptedPeer channel peerMac lmk)) =
            (espOk, encryptedPeer channel peerMac lmk) := by
          simp only [espNowGetPeer, EspNow.setPeer, encryptedPeer, Function.update_self, hget]
          rfl
        rw [hread, hget]
        rfl
      · have hread : (espNowGetPeer res peerMac
            (n'.setPeer (encryptedPeer channel peerMac lmk))).1 = res.getPeer := rfl
        rw [hread, if_pos hget]
    · rw [if_pos hwrite, if_pos hwrite, if_neg hwrite]
  · rw [if_pos hpmk, if_pos hpmk, if_neg hpmk]

/-- A driver call of `key_manager_enable_derived_espnow_encryption`. -/
inductive DriverCall
  | setPmk | modPeer | addPeer | getPeer
  deriving DecidableEq

/-- What a driver call returns. -/
def EspNowRes.result (res : EspNowRes) : DriverCall → EspErr
  | .setPmk => res.setPmk
  | .modPeer => res.modPeer
  | .addPeer => res.addPeer
  | .getPeer => res.getPeer

/-- The driver calls an installation makes, in order. -/
def keyManagerCalls (res : EspNowRes) (peerMac : Mac) (n : EspNow) : List DriverCall :=
  let write : DriverCall := if espNowIsPeerExist peerMac n then .modPeer else .addPeer
  if res.setPmk ≠ espOk then [.setPmk]
  else if res.result write ≠ espOk then [.setPmk, write]
  else [.setPmk, write, .getPeer]

/-- **An installation returns what its last call returns**; the calls before it have succeeded. -/
theorem keyManager_calls (res : EspNowRes) (channel : UInt8) (peerMac : Mac) (lmk : Lmk)
    (n : EspNow) : ∃ before call, keyManagerCalls res peerMac n = before ++ [call] ∧
      (∀ c ∈ before, res.result c = espOk) ∧
      (keyManagerEnableDerivedEspnowEncryption res channel (some peerMac) (some lmk) n).1 =
        res.result call := by
  have hwrite : res.writePeer peerMac n =
      res.result (if espNowIsPeerExist peerMac n then .modPeer else .addPeer) := by
    unfold EspNowRes.writePeer
    split <;> rfl
  rw [keyManager_eq, hwrite, keyManagerCalls]
  generalize (if espNowIsPeerExist peerMac n then DriverCall.modPeer else .addPeer) = write
  by_cases hpmk : res.setPmk = espOk
  · rw [if_neg (not_not.mpr hpmk), if_neg (not_not.mpr hpmk)]
    by_cases hok : res.result write = espOk
    · rw [if_neg (not_not.mpr hok), if_neg (not_not.mpr hok)]
      refine ⟨[.setPmk, write], .getPeer, rfl, fun c hc => ?_, rfl⟩
      rcases List.mem_pair.mp hc with rfl | rfl
      · exact hpmk
      · exact hok
    · rw [if_pos hok, if_pos hok]
      refine ⟨[.setPmk], write, rfl, fun c hc => ?_, rfl⟩
      rwa [List.mem_singleton.mp hc]
  · rw [if_pos hpmk, if_pos hpmk]
    exact ⟨[], .setPmk, rfl, fun c hc => absurd hc List.not_mem_nil, rfl⟩

/-- **What an installation can do to the peer table.** It leaves the table alone and fails, or it
writes the encrypted entry; only in the second case can it succeed. -/
theorem keyManager_peers (res : EspNowRes) (channel : UInt8) (peerMac : Mac) (lmk : Lmk)
    (n : EspNow) :
    let r := keyManagerEnableDerivedEspnowEncryption res channel (some peerMac) (some lmk) n
    r.1 ≠ espOk ∧ r.2.peers = n.peers ∨
      r.2.peers = Function.update n.peers peerMac (some (encryptedPeer channel peerMac lmk)) := by
  dsimp only
  rw [keyManager_eq]
  split
  · next hpmk => exact .inl ⟨hpmk, rfl⟩
  split
  · next hwrite => exact .inl ⟨hwrite, rfl⟩
  · exact .inr rfl

theorem writePeer_ok (peerMac : Mac) (n : EspNow) : EspNowRes.ok.writePeer peerMac n = espOk := by
  unfold EspNowRes.writePeer
  split <;> rfl

end EspNowEdhoc
