import EspNowEdhoc.Transport.EspNow

/-!
# The wire format, `edhoc_transport.c`

* `EdhocTransportHdr` and its twelve bytes, little-endian and packed; `EdhocTransportHdr.ofBytes`
  is the cast of a received array to the header.
* **`edhocTransportSend_eq`**: what a payload that fits puts on the air.
* **`parseRx_rxPacket`**: what the receiver of that frame parses.
-/

namespace EspNowEdhoc

/-- `EDHOC_TRANSPORT_MAGIC`. -/
def edhocTransportMagic : UInt8 := 0xE7

/-- `EDHOC_TRANSPORT_VERSION`. -/
def edhocTransportVersion : UInt8 := 1

/-- `EDHOC_TRANSPORT_MAX_PAYLOAD_LEN`. -/
def edhocTransportMaxPayloadLen : ℕ := 192

/-- `edhoc_transport_msg_type_t`. -/
inductive MsgType
  | m1 | m2 | m3 | ack | keyTest | keyTestAck
  deriving DecidableEq, Repr

def MsgType.code : MsgType → UInt8
  | .m1 => 0x10
  | .m2 => 0x11
  | .m3 => 0x12
  | .ack => 0x13
  | .keyTest => 0x20
  | .keyTestAck => 0x21

theorem MsgType.code_inj {t t' : MsgType} : t.code = t'.code ↔ t = t' := by
  cases t <;> cases t' <;> decide

/-- `edhoc_transport_hdr_t`. -/
structure EdhocTransportHdr where
  magic : UInt8
  version : UInt8
  type : UInt8
  flags : UInt8
  sessionId : UInt16
  seq : UInt16
  fragIdx : UInt8
  fragCount : UInt8
  payloadLen : UInt16
  deriving DecidableEq

/-- `sizeof(edhoc_transport_hdr_t)`. -/
def headerLen : ℕ := 12

/-- The packed bytes of a header. -/
def EdhocTransportHdr.bytes (h : EdhocTransportHdr) : List UInt8 :=
  [h.magic, h.version, h.type, h.flags] ++ le16 h.sessionId ++ le16 h.seq ++
    [h.fragIdx, h.fragCount] ++ le16 h.payloadLen

theorem EdhocTransportHdr.length_bytes (h : EdhocTransportHdr) : h.bytes.length = headerLen := rfl

/-- `(const edhoc_transport_hdr_t *)rx->data`. -/
def EdhocTransportHdr.ofBytes (data : Bytes 250) : EdhocTransportHdr where
  magic := data.get 0
  version := data.get 1
  type := data.get 2
  flags := data.get 3
  sessionId := ofLe16 (data.get 4) (data.get 5)
  seq := ofLe16 (data.get 6) (data.get 7)
  fragIdx := data.get 8
  fragCount := data.get 9
  payloadLen := ofLe16 (data.get 10) (data.get 11)

/-- `edhoc_transport_msg_t`. -/
structure EdhocTransportMsg where
  srcMac : Mac
  type : UInt8
  flags : UInt8
  sessionId : UInt16
  seq : UInt16
  fragIdx : UInt8
  fragCount : UInt8
  payloadLen : UInt16
  payload : Bytes 192
  deriving DecidableEq

/-- `edhoc_transport_msg_t msg = {0}`. -/
def EdhocTransportMsg.zero : EdhocTransportMsg :=
  ⟨Bytes.zeroed 6, 0, 0, 0, 0, 0, 0, 0, Bytes.zeroed 192⟩

/-- The bytes of a received payload. -/
def EdhocTransportMsg.bytes (msg : EdhocTransportMsg) : List UInt8 :=
  msg.payload.toList.take msg.payloadLen.toNat

/-- `edhoc_transport_send`: its result, and the frame if it reaches `esp_now_send`. -/
def edhocTransportSend (res : EspNowRes) (peerMac : Option Mac) (type : UInt8)
    (sessionId seq : UInt16) (payload : Option (List UInt8)) (payloadLen : ℕ) (n : EspNow) :
    EspErr × Option SentFrame :=
  if peerMac = none ∨ payloadLen > 0 ∧ payload = none then (espErrInvalidArg, none)
  else if payloadLen > edhocTransportMaxPayloadLen then (espErrInvalidSize, none)
  else
    let wireLen := headerLen + payloadLen
    if wireLen > espnowTransportMaxPayloadLen then (espErrInvalidSize, none)
    else
      let hdr : EdhocTransportHdr :=
        { magic := edhocTransportMagic, version := edhocTransportVersion, type := type, flags := 0,
          sessionId := sessionId, seq := seq, fragIdx := 0, fragCount := 1,
          payloadLen := UInt16.ofNat payloadLen }
      let frame := Bytes.fill 250 (hdr.bytes ++ (payload.getD []).take payloadLen)
      espnowTransportSend res peerMac (some frame.toList) wireLen n

/-- `edhoc_transport_parse_rx`: its result and what `*out_msg` then holds. -/
def edhocTransportParseRx (rx : Option RxPacket) (outMsg : Option EdhocTransportMsg) :
    Bool × Option EdhocTransportMsg :=
  match rx, outMsg with
  | some rx, some outMsg =>
    if rx.dataLen < headerLen then (false, some outMsg)
    else
      let hdr := EdhocTransportHdr.ofBytes rx.data
      if hdr.magic ≠ edhocTransportMagic ∨ hdr.version ≠ edhocTransportVersion then
        (false, some outMsg)
      else if hdr.fragCount = 0 ∨ hdr.fragIdx ≥ hdr.fragCount then (false, some outMsg)
      else if hdr.payloadLen.toNat > edhocTransportMaxPayloadLen then (false, some outMsg)
      else if headerLen + hdr.payloadLen.toNat > rx.dataLen.toNat then (false, some outMsg)
      else
        (true, some
          { srcMac := rx.srcMac, type := hdr.type, flags := hdr.flags, sessionId := hdr.sessionId,
            seq := hdr.seq, fragIdx := hdr.fragIdx, fragCount := hdr.fragCount,
            payloadLen := hdr.payloadLen,
            payload := Bytes.fill 192
              ((rx.data.toList.drop headerLen).take hdr.payloadLen.toNat) })
  | _, outMsg => (false, outMsg)

/-- The message of a packet that `app_task` hands to the parser, if the parser accepts it. -/
def parsedMsg (rx : RxPacket) : Option EdhocTransportMsg :=
  match edhocTransportParseRx (some rx) (some .zero) with
  | (true, msg) => msg
  | (false, _) => none

/-! ## The frame of a payload -/

/-- The bytes on the air of a message with one fragment. -/
def frameBytes (type : UInt8) (sessionId seq : UInt16) (payload : List UInt8) : List UInt8 :=
  EdhocTransportHdr.bytes
    { magic := edhocTransportMagic, version := edhocTransportVersion, type := type, flags := 0,
      sessionId := sessionId, seq := seq, fragIdx := 0, fragCount := 1,
      payloadLen := UInt16.ofNat payload.length } ++ payload

theorem length_frameBytes (type : UInt8) (sessionId seq : UInt16) (payload : List UInt8) :
    (frameBytes type sessionId seq payload).length = headerLen + payload.length := by
  rw [frameBytes, List.length_append, EdhocTransportHdr.length_bytes]

/-- The type byte of a frame. -/
def frameType (data : List UInt8) : UInt8 := data.getD 2 0

/-- **Sending.** A payload of at most 192 bytes passes every check and reaches `esp_now_send`. -/
theorem edhocTransportSend_eq (res : EspNowRes) (mac : Mac) (type : UInt8) (sessionId seq : UInt16)
    {buffer : List UInt8} {len : ℕ} (hlen : len ≤ 192) (hbuf : len ≤ buffer.length) (n : EspNow) :
    edhocTransportSend res (some mac) type sessionId seq (some buffer) len n =
      (res.send,
        some ⟨mac, frameBytes type sessionId seq (buffer.take len), n.peers mac, res.send⟩) := by
  have htake : (buffer.take len).length = len := by rw [List.length_take]; omega
  have hlen' : (frameBytes type sessionId seq (buffer.take len)).length = headerLen + len := by
    rw [length_frameBytes, htake]
  have h250 : headerLen + len ≤ 250 := by unfold headerLen; omega
  unfold edhocTransportSend
  rw [if_neg (by simp), if_neg (by unfold edhocTransportMaxPayloadLen; omega)]
  dsimp only
  rw [if_neg (by unfold espnowTransportMaxPayloadLen; omega)]
  dsimp only [espnowTransportSend]
  rw [if_neg (by unfold headerLen espnowTransportMaxPayloadLen; omega)]
  have hframe := Bytes.take_toList_fill (n := 250) (by rw [hlen']; exact h250)
  rw [hlen'] at hframe
  simp only [frameBytes, htake] at hframe
  simp only [espNowSend, Option.getD_some, hframe, frameBytes, htake]

theorem edhocTransportSend_some {res : EspNowRes} {mac : Mac} {type : UInt8}
    {sessionId seq : UInt16} {payload : Option (List UInt8)} {len : ℕ} {n : EspNow} {err : EspErr}
    {f : SentFrame}
    (h : edhocTransportSend res (some mac) type sessionId seq payload len n = (err, some f)) :
    err = res.send ∧ f.result = res.send ∧ f.dest = mac ∧ f.entry = n.peers mac ∧
      frameType f.data = type ∧ f.data.length ≤ 250 := by
  unfold edhocTransportSend at h
  split at h
  · cases h
  split at h
  · cases h
  dsimp only at h
  split at h
  · cases h
  dsimp only [espnowTransportSend] at h
  split at h
  · cases h
  · next hlen =>
    cases h
    refine ⟨rfl, rfl, rfl, rfl, ?_, ?_⟩
    · simp only [espNowSend, frameType, headerLen]
      rw [Nat.add_comm]
      rfl
    · simp only [espNowSend, List.length_take, List.Vector.toList_length]
      omega

theorem edhocTransportSend_none {res : EspNowRes} {mac : Option Mac} {type : UInt8}
    {sessionId seq : UInt16} {payload : Option (List UInt8)} {len : ℕ} {n : EspNow} {err : EspErr}
    (h : edhocTransportSend res mac type sessionId seq payload len n = (err, none)) :
    err ≠ espOk := by
  unfold edhocTransportSend at h
  split at h
  · cases h; decide
  split at h
  · cases h; decide
  dsimp only at h
  split at h
  · cases h; decide
  unfold espnowTransportSend at h
  split at h
  · split at h <;> cases h
    decide
  · cases h; decide

/-! ## Parsing -/

theorem parsedMsg_eq_some {rx : RxPacket} {msg : EdhocTransportMsg} (h : parsedMsg rx = some msg) :
    msg.srcMac = rx.srcMac ∧ msg.type = rx.data.get 2 ∧ 12 ≤ rx.dataLen ∧
      msg.payloadLen.toNat ≤ 192 := by
  unfold parsedMsg edhocTransportParseRx at h
  dsimp only at h
  split at h
  · next hr =>
    split at hr
    · cases hr
    split at hr
    · cases hr
    split at hr
    · cases hr
    split at hr
    · cases hr
    split at hr
    · cases hr
    · next hmin _ _ hmax _ =>
      cases hr
      cases h
      simp only [headerLen, edhocTransportMaxPayloadLen] at hmin hmax
      exact ⟨rfl, rfl, by omega, by simpa using hmax⟩
  · cases h

def RxPacket.type (rx : RxPacket) : UInt8 := rx.data.get 2

/-- The payload length that a packet declares, its bytes 10 and 11. -/
def RxPacket.payloadLen (rx : RxPacket) : ℕ := (rx.data.get 10).toNat + 256 * (rx.data.get 11).toNat

theorem type_of_parsedMsg {rx : RxPacket} {msg : EdhocTransportMsg} (h : parsedMsg rx = some msg) :
    msg.type = rx.type := (parsedMsg_eq_some h).2.1

/-- **The type of a packet is byte 2 of its frame**, whoever sent it. -/
theorem type_rxPacket (src : Mac) (data : List UInt8) :
    (rxPacket src data data.length).type = frameType data := by
  simp only [RxPacket.type, rxPacket, Int.toNat_natCast, List.take_length, Bytes.get_fill]
  rfl

theorem EdhocTransportHdr.ofBytes_fill (h : EdhocTransportHdr) (rest : List UInt8) :
    EdhocTransportHdr.ofBytes (Bytes.fill 250 (h.bytes ++ rest)) = h := by
  have hread : EdhocTransportHdr.ofBytes (Bytes.fill 250 (h.bytes ++ rest)) =
      { h with
        sessionId := ofLe16 (UInt8.ofNat (h.sessionId.toNat % 256))
          (UInt8.ofNat (h.sessionId.toNat / 256))
        seq := ofLe16 (UInt8.ofNat (h.seq.toNat % 256)) (UInt8.ofNat (h.seq.toNat / 256))
        payloadLen := ofLe16 (UInt8.ofNat (h.payloadLen.toNat % 256))
          (UInt8.ofNat (h.payloadLen.toNat / 256)) } := rfl
  rw [hread, ofLe16_le16, ofLe16_le16, ofLe16_le16]

/-- **Receiving.** What the receiver of a frame of at most 192 payload bytes parses. -/
theorem parseRx_rxPacket (src : Mac) (type : UInt8) (sessionId seq : UInt16) {payload : List UInt8}
    (hlen : payload.length ≤ 192) :
    parsedMsg (rxPacket src (frameBytes type sessionId seq payload)
        (frameBytes type sessionId seq payload).length) =
      some { srcMac := src, type := type, flags := 0, sessionId := sessionId, seq := seq,
             fragIdx := 0, fragCount := 1, payloadLen := UInt16.ofNat payload.length,
             payload := Bytes.fill 192 payload } := by
  have hwire := length_frameBytes type sessionId seq payload
  have h250 : (frameBytes type sessionId seq payload).length ≤ 250 := by
    rw [hwire]; unfold headerLen; omega
  have hnat : (UInt16.ofNat payload.length).toNat = payload.length := by
    rw [UInt16.toNat_ofNat', Nat.mod_eq_of_lt (by omega)]
  -- the payload, behind the header of the zero-padded array
  have hpay : ((Bytes.fill 250 (frameBytes type sessionId seq payload)).toList.drop
      headerLen).take payload.length = payload := by
    rw [Bytes.toList_fill h250, frameBytes, List.append_assoc,
      List.drop_left' (EdhocTransportHdr.length_bytes _), List.take_left]
  simp only [parsedMsg, edhocTransportParseRx, rxPacket, Int.toNat_natCast, List.take_length]
  rw [hwire, if_neg (by push_cast; omega), frameBytes, EdhocTransportHdr.ofBytes_fill]
  dsimp only
  rw [if_neg (by decide), if_neg (by decide), hnat,
    if_neg (by unfold edhocTransportMaxPayloadLen; omega), if_neg (lt_irrefl _)]
  dsimp only
  rw [frameBytes] at hpay
  rw [hpay]

end EspNowEdhoc
