import EspNowEdhoc.Transport.Edhoc

/-!
# What the parser accepts, and what it makes of it

* `RxPacket.read`, `edhocTransportParseRxChecked`: the parser with every access to the received
  bytes checked; **`parseRxChecked_eq`**: no check ever fails.
* **`parse_rx_grammar`**: the parser accepts exactly the grammar, fills in the message from the
  frame alone and leaves the old message when it rejects.
* `EdhocTransportMsg.wire`: a message in wire order; **`wire_of_received`**: it is the frame up to
  the declared length, which need not be all of it (`trailing_byte_lost`).
* **`frame_round_trip`**: what is sent is what is received.
-/

namespace EspNowEdhoc

/-! ## The grammar -/

/-- The packet holds a frame of the wire format. -/
structure InGrammar (rx : RxPacket) : Prop where
  header : 12 ≤ rx.dataLen
  magic : rx.data.get 0 = 0xE7
  version : rx.data.get 1 = 1
  fragCount : 0 < rx.data.get 9
  fragIdx : rx.data.get 8 < rx.data.get 9
  payloadLen : rx.payloadLen ≤ 192
  payload : 12 + rx.payloadLen ≤ rx.dataLen

/-- The message of a frame: the fields of its header, and its payload followed by zeros. -/
structure MessageOf (rx : RxPacket) (msg : EdhocTransportMsg) : Prop where
  srcMac : msg.srcMac = rx.srcMac
  type : msg.type = rx.data.get 2
  flags : msg.flags = rx.data.get 3
  sessionId : msg.sessionId = ofLe16 (rx.data.get 4) (rx.data.get 5)
  seq : msg.seq = ofLe16 (rx.data.get 6) (rx.data.get 7)
  fragIdx : msg.fragIdx = rx.data.get 8
  fragCount : msg.fragCount = rx.data.get 9
  payloadLen : msg.payloadLen.toNat = rx.payloadLen
  payload : msg.payload.toList =
    (rx.data.toList.drop 12).take rx.payloadLen ++ List.replicate (192 - rx.payloadLen) 0

/-- What `*out_msg` holds after a frame is accepted. -/
def RxPacket.message (rx : RxPacket) : EdhocTransportMsg :=
  let hdr := EdhocTransportHdr.ofBytes rx.data
  { srcMac := rx.srcMac, type := hdr.type, flags := hdr.flags, sessionId := hdr.sessionId,
    seq := hdr.seq, fragIdx := hdr.fragIdx, fragCount := hdr.fragCount,
    payloadLen := hdr.payloadLen,
    payload := Bytes.fill 192 ((rx.data.toList.drop headerLen).take hdr.payloadLen.toNat) }

section Parser

variable {rx rx' : RxPacket} {out out' : EdhocTransportMsg}

theorem EdhocTransportHdr.toNat_payloadLen (rx : RxPacket) :
    (EdhocTransportHdr.ofBytes rx.data).payloadLen.toNat = rx.payloadLen := toNat_ofLe16 ..

theorem parseRx_of_inGrammar (h : InGrammar rx) :
    edhocTransportParseRx (some rx) (some out) = (true, some rx.message) := by
  have hheader := h.header
  have hlen := h.payloadLen
  have hfits := h.payload
  simp only [edhocTransportParseRx, EdhocTransportHdr.toNat_payloadLen, headerLen,
    edhocTransportMaxPayloadLen]
  rw [if_neg (by push_cast; omega), if_neg, if_neg, if_neg (by omega), if_neg (by omega)]
  · simp only [RxPacket.message, EdhocTransportHdr.toNat_payloadLen, headerLen]
  · rintro (hzero | hge)
    · exact UInt8.pos_iff_ne_zero.mp h.fragCount hzero
    · exact absurd h.fragIdx (UInt8.not_lt.mpr hge)
  · rintro (hne | hne)
    · exact hne h.magic
    · exact hne h.version

theorem parseRx_of_not_inGrammar (h : ¬ InGrammar rx) :
    edhocTransportParseRx (some rx) (some out) = (false, some out) := by
  simp only [edhocTransportParseRx, EdhocTransportHdr.toNat_payloadLen, headerLen,
    edhocTransportMaxPayloadLen]
  split
  · rfl
  split
  · rfl
  split
  · rfl
  split
  · rfl
  split
  · rfl
  next hheader hmagic hfrag hlen hfits =>
  simp only [not_or, not_not] at hmagic hfrag
  refine absurd ⟨by omega, hmagic.1, hmagic.2, ?_, UInt8.not_le.mp hfrag.2, by omega, by omega⟩ h
  exact UInt8.pos_iff_ne_zero.mpr hfrag.1

theorem messageOf_message (h : rx.payloadLen ≤ 192) : MessageOf rx rx.message where
  srcMac := rfl
  type := rfl
  flags := rfl
  sessionId := rfl
  seq := rfl
  fragIdx := rfl
  fragCount := rfl
  payloadLen := EdhocTransportHdr.toNat_payloadLen rx
  payload := by
    have hle : ((rx.data.toList.drop 12).take rx.payloadLen).length = rx.payloadLen := by
      rw [List.length_take, List.length_drop, List.Vector.toList_length]
      omega
    simp only [RxPacket.message, EdhocTransportHdr.toNat_payloadLen, headerLen]
    rw [Bytes.toList_fill (by omega), hle]

end Parser

/-! ## The bytes it reads -/

namespace RxPacket

/-- `rx->data[i]`; `none` if this is not one of the first `data_len` bytes of the array. -/
def read (rx : RxPacket) (i : ℕ) : Option UInt8 :=
  if i < rx.dataLen then rx.data.toList[i]? else none

/-- The header, read byte by byte. -/
def readHdr (rx : RxPacket) : Option EdhocTransportHdr := do
  let magic ← rx.read 0
  let version ← rx.read 1
  let type ← rx.read 2
  let flags ← rx.read 3
  let sessionId ← ofLe16 <$> rx.read 4 <*> rx.read 5
  let seq ← ofLe16 <$> rx.read 6 <*> rx.read 7
  let fragIdx ← rx.read 8
  let fragCount ← rx.read 9
  let payloadLen ← ofLe16 <$> rx.read 10 <*> rx.read 11
  return ⟨magic, version, type, flags, sessionId, seq, fragIdx, fragCount, payloadLen⟩

/-- The `len` bytes from index `lo` on, read byte by byte. -/
def readSlice (rx : RxPacket) (lo : ℕ) : ℕ → Option (List UInt8)
  | 0 => some []
  | len + 1 => List.cons <$> rx.read lo <*> rx.readSlice (lo + 1) len

end RxPacket

/-- `edhoc_transport_parse_rx` with every access to `rx->data` checked. -/
def edhocTransportParseRxChecked (rx : RxPacket) (outMsg : EdhocTransportMsg) :
    Option (Bool × Option EdhocTransportMsg) :=
  if rx.dataLen < headerLen then some (false, some outMsg)
  else do
    let hdr ← rx.readHdr
    if hdr.magic ≠ edhocTransportMagic ∨ hdr.version ≠ edhocTransportVersion then
      return (false, some outMsg)
    if hdr.fragCount = 0 ∨ hdr.fragIdx ≥ hdr.fragCount then return (false, some outMsg)
    if hdr.payloadLen.toNat > edhocTransportMaxPayloadLen then return (false, some outMsg)
    if headerLen + hdr.payloadLen.toNat > rx.dataLen.toNat then return (false, some outMsg)
    let payload ← rx.readSlice headerLen hdr.payloadLen.toNat
    return (true, some
      { srcMac := rx.srcMac, type := hdr.type, flags := hdr.flags, sessionId := hdr.sessionId,
        seq := hdr.seq, fragIdx := hdr.fragIdx, fragCount := hdr.fragCount,
        payloadLen := hdr.payloadLen, payload := Bytes.fill 192 payload })

section Reads

variable {rx : RxPacket} {out : EdhocTransportMsg}

theorem RxPacket.read_eq {i : ℕ} (h : (i : ℤ) < rx.dataLen) (harr : i < 250) :
    rx.read i = some (rx.data.get ⟨i, harr⟩) := by
  rw [RxPacket.read, if_pos h,
    List.getElem?_eq_getElem (by rw [List.Vector.toList_length]; exact harr)]
  rfl

theorem RxPacket.readHdr_eq (h : 12 ≤ rx.dataLen) :
    rx.readHdr = some (EdhocTransportHdr.ofBytes rx.data) := by
  have hread (i : ℕ) (hi : i < 12) : rx.read i = some (rx.data.get ⟨i, by omega⟩) :=
    RxPacket.read_eq (by omega) (by omega)
  unfold RxPacket.readHdr
  rw [hread 0 (by decide), hread 1 (by decide), hread 2 (by decide), hread 3 (by decide),
    hread 4 (by decide), hread 5 (by decide), hread 6 (by decide), hread 7 (by decide),
    hread 8 (by decide), hread 9 (by decide), hread 10 (by decide), hread 11 (by decide)]
  rfl

theorem RxPacket.readSlice_eq {lo len : ℕ} (hlen : lo + len ≤ rx.dataLen) (harr : lo + len ≤ 250) :
    rx.readSlice lo len = some ((rx.data.toList.drop lo).take len) := by
  induction len generalizing lo with
  | zero => simp [RxPacket.readSlice]
  | succ len ih =>
    have hlo : lo < rx.data.toList.length := by rw [List.Vector.toList_length]; omega
    have hread : rx.read lo = some rx.data.toList[lo] := by
      rw [RxPacket.read, if_pos (by omega), List.getElem?_eq_getElem hlo]
    rw [RxPacket.readSlice, hread, ih (by push_cast; omega) (by omega),
      List.drop_eq_getElem_cons hlo, List.take_succ_cons]
    rfl

/-- **Every byte that the parser reads** is one of the first `data_len` bytes of the packet and
inside the array. -/
theorem parseRxChecked_eq (rx : RxPacket) (out : EdhocTransportMsg) :
    edhocTransportParseRxChecked rx out = some (edhocTransportParseRx (some rx) (some out)) := by
  unfold edhocTransportParseRxChecked edhocTransportParseRx
  dsimp only
  split
  · rfl
  next hlen =>
  rw [RxPacket.readHdr_eq (by simp only [headerLen] at hlen; omega)]
  simp only [Option.bind_eq_bind, Option.bind_some, Option.pure_def]
  split
  · rfl
  split
  · rfl
  split
  · rfl
  split
  · rfl
  next hmax hfits =>
  simp only [headerLen, edhocTransportMaxPayloadLen] at hlen hmax hfits
  rw [RxPacket.readSlice_eq (by simp only [headerLen]; omega) (by simp only [headerLen]; omega)]
  rfl

end Reads

/-! ## The parser -/

section Parser

variable {rx rx' : RxPacket}

theorem EdhocTransportHdr.ofBytes_congr {data data' : Bytes 250}
    (h : data'.toList.take 12 = data.toList.take 12) :
    EdhocTransportHdr.ofBytes data' = EdhocTransportHdr.ofBytes data := by
  have hget (i : ℕ) (hi : i < 12) :
      data'.get ⟨i, by omega⟩ = data.get ⟨i, by omega⟩ := by
    have hi' := congrArg (·[i]?) h
    simp only [List.getElem?_take, hi, if_true] at hi'
    rw [List.getElem?_eq_getElem (by rw [List.Vector.toList_length]; omega),
      List.getElem?_eq_getElem (by rw [List.Vector.toList_length]; omega)] at hi'
    exact Option.some.inj hi'
  unfold EdhocTransportHdr.ofBytes
  congr 1
  · exact hget 0 (by decide)
  · exact hget 1 (by decide)
  · exact hget 2 (by decide)
  · exact hget 3 (by decide)
  · exact congrArg₂ ofLe16 (hget 4 (by decide)) (hget 5 (by decide))
  · exact congrArg₂ ofLe16 (hget 6 (by decide)) (hget 7 (by decide))
  · exact hget 8 (by decide)
  · exact hget 9 (by decide)
  · exact congrArg₂ ofLe16 (hget 10 (by decide)) (hget 11 (by decide))

/-- The message is read from the source and the first `12 + payload_len` bytes. -/
theorem RxPacket.message_congr (rx rx' : RxPacket) (hsrc : rx'.srcMac = rx.srcMac)
    (h : rx'.data.toList.take (12 + rx.payloadLen) = rx.data.toList.take (12 + rx.payloadLen)) :
    EdhocTransportHdr.ofBytes rx'.data = EdhocTransportHdr.ofBytes rx.data ∧
      rx'.message = rx.message := by
  have hhdr : EdhocTransportHdr.ofBytes rx'.data = EdhocTransportHdr.ofBytes rx.data := by
    refine EdhocTransportHdr.ofBytes_congr ?_
    have htake := congrArg (List.take 12) h
    rwa [List.take_take, List.take_take, Nat.min_eq_left (Nat.le_add_right ..)] at htake
  have hpay : (rx'.data.toList.drop 12).take rx.payloadLen =
      (rx.data.toList.drop 12).take rx.payloadLen := by
    have hdrop := congrArg (List.drop 12) h
    rwa [List.drop_take, List.drop_take, Nat.add_sub_cancel_left] at hdrop
  refine ⟨hhdr, ?_⟩
  simp only [RxPacket.message, hhdr, EdhocTransportHdr.toNat_payloadLen, headerLen, hpay, hsrc]

theorem InGrammar.of_ofBytes (h : InGrammar rx)
    (hhdr : EdhocTransportHdr.ofBytes rx'.data = EdhocTransportHdr.ofBytes rx.data)
    (hlen : (12 + rx.payloadLen : ℤ) ≤ rx'.dataLen) : InGrammar rx' := by
  have hpay : rx'.payloadLen = rx.payloadLen := by
    rw [← EdhocTransportHdr.toNat_payloadLen, hhdr, EdhocTransportHdr.toNat_payloadLen]
  have hcount : rx'.data.get 9 = rx.data.get 9 := congrArg EdhocTransportHdr.fragCount hhdr
  have hidx : rx'.data.get 8 = rx.data.get 8 := congrArg EdhocTransportHdr.fragIdx hhdr
  exact
    { header := by omega
      magic := (congrArg EdhocTransportHdr.magic hhdr).trans h.magic
      version := (congrArg EdhocTransportHdr.version hhdr).trans h.version
      fragCount := by rw [hcount]; exact h.fragCount
      fragIdx := by rw [hidx, hcount]; exact h.fragIdx
      payloadLen := by rw [hpay]; exact h.payloadLen
      payload := by rw [hpay]; exact hlen }

end Parser

/-- **The parser accepts exactly its grammar and reads nothing else.** For every packet and every
old message: it accepts exactly the frames of the grammar; the message is then that of the frame;
any packet from the same source with the same first `12 + payload_len` bytes is parsed to the same
message over any other old message; when it rejects, the old message is left; and every byte it
reads is one of the first `data_len` and inside the array. -/
theorem parse_rx_grammar (rx : RxPacket) (out : EdhocTransportMsg) :
    let r := edhocTransportParseRx (some rx) (some out)
    (r.1 = true ↔ InGrammar rx) ∧
    (r.1 = true → ∃ msg, r.2 = some msg ∧ MessageOf rx msg) ∧
    (∀ rx' out', r.1 = true → rx'.srcMac = rx.srcMac → (12 + rx.payloadLen : ℤ) ≤ rx'.dataLen →
      rx'.data.toList.take (12 + rx.payloadLen) = rx.data.toList.take (12 + rx.payloadLen) →
      edhocTransportParseRx (some rx') (some out') = r) ∧
    (r.1 = false → r.2 = some out) ∧
    edhocTransportParseRxChecked rx out = some r := by
  intro r
  have hchecked : edhocTransportParseRxChecked rx out = some r := parseRxChecked_eq rx out
  by_cases h : InGrammar rx
  · have hr : r = (true, some rx.message) := parseRx_of_inGrammar h
    rw [hr] at hchecked ⊢
    refine ⟨iff_of_true rfl h, fun _ => ⟨_, rfl, messageOf_message h.payloadLen⟩, ?_, nofun,
      hchecked⟩
    rintro rx' out' - hsrc hlen hbytes
    obtain ⟨hhdr, hmsg⟩ := RxPacket.message_congr rx rx' hsrc hbytes
    rw [parseRx_of_inGrammar (h.of_ofBytes hhdr hlen), hmsg]
  · have hr : r = (false, some out) := parseRx_of_not_inGrammar h
    rw [hr] at hchecked ⊢
    exact ⟨iff_of_false nofun h, nofun, nofun, fun _ => rfl, hchecked⟩

/-! ## Decoding and encoding -/

def EdhocTransportMsg.hdr (msg : EdhocTransportMsg) : EdhocTransportHdr :=
  { magic := edhocTransportMagic, version := edhocTransportVersion, type := msg.type,
    flags := msg.flags, sessionId := msg.sessionId, seq := msg.seq, fragIdx := msg.fragIdx,
    fragCount := msg.fragCount, payloadLen := msg.payloadLen }

/-- The message in wire order: its header fields and its payload. -/
def EdhocTransportMsg.wire (msg : EdhocTransportMsg) : List UInt8 := msg.hdr.bytes ++ msg.bytes

section Codec

variable {rx : RxPacket} {msg : EdhocTransportMsg} {src : Mac} {received received' : List UInt8}

theorem parsedMsg_eq_some_iff : parsedMsg rx = some msg ↔ InGrammar rx ∧ rx.message = msg := by
  unfold parsedMsg
  by_cases h : InGrammar rx
  · rw [parseRx_of_inGrammar h]
    exact ⟨fun hm => ⟨h, Option.some.inj hm⟩, fun hm => congrArg some hm.2⟩
  · rw [parseRx_of_not_inGrammar h]
    exact iff_of_false nofun fun hm => h hm.1

theorem EdhocTransportHdr.bytes_ofBytes (data : Bytes 250) :
    (EdhocTransportHdr.ofBytes data).bytes = data.toList.take 12 := by
  rw [Bytes.take_toList data (by decide)]
  simp only [EdhocTransportHdr.bytes, EdhocTransportHdr.ofBytes, le16_ofLe16]
  rfl

/-- **Encoding what was decoded** gives the first `12 + payload_len` bytes. -/
theorem wire_message (h : InGrammar rx) :
    rx.message.wire = rx.data.toList.take (12 + rx.payloadLen) := by
  have hhdr : rx.message.hdr = EdhocTransportHdr.ofBytes rx.data := by
    have hmagic : edhocTransportMagic = (EdhocTransportHdr.ofBytes rx.data).magic := h.magic.symm
    have hversion : edhocTransportVersion = (EdhocTransportHdr.ofBytes rx.data).version :=
      h.version.symm
    rw [EdhocTransportMsg.hdr, hmagic, hversion]
    rfl
  have hlen : ((rx.data.toList.drop 12).take rx.payloadLen).length = rx.payloadLen := by
    have hle := h.payloadLen
    rw [List.length_take, List.length_drop, List.Vector.toList_length]
    omega
  have hmsg := messageOf_message h.payloadLen
  rw [EdhocTransportMsg.wire, hhdr, EdhocTransportHdr.bytes_ofBytes, EdhocTransportMsg.bytes,
    hmsg.payload, hmsg.payloadLen, List.take_left' hlen, List.take_add]

theorem mem_recvCb (h : rx ∈ (espnowRecvCb (some (some src)) (some received) received.length
    .empty).items) :
    received.length ≤ 250 ∧ rx = rxPacket src received received.length := by
  rcases mem_espnowRecvCb h with h | ⟨_, _, hsrc, hdata, -, hle, hrx⟩
  · cases h
  · cases hsrc
    cases hdata
    exact ⟨by omega, hrx⟩

theorem take_rxPacket (hlen : received.length ≤ 250) {k : ℕ} (hk : k ≤ received.length) :
    (rxPacket src received received.length).data.toList.take k = received.take k := by
  change (Bytes.fill 250 (received.take _)).toList.take k = _
  rw [Int.toNat_natCast, List.take_length, Bytes.toList_fill hlen, List.take_append_of_le_length hk]

end Codec

/-- A message_1 frame, and the same frame with a byte after its payload. -/
def trailingFrames : List UInt8 × List UInt8 :=
  (frameBytes MsgType.m1.code 0x1234 1 [1], frameBytes MsgType.m1.code 0x1234 1 [1] ++ [0xAA])

/-- Two different frames from one sender are parsed to the same message, which gives back only one
of them. -/
theorem trailing_byte_lost :
    let src : Mac := ⟨[2, 0, 0, 0, 0, 1], rfl⟩
    let rx := rxPacket src trailingFrames.1 13
    let rx' := rxPacket src trailingFrames.2 14
    rx ∈ (espnowRecvCb (some (some src)) (some trailingFrames.1) 13 .empty).items ∧
    rx' ∈ (espnowRecvCb (some (some src)) (some trailingFrames.2) 14 .empty).items ∧
    ∃ msg, parsedMsg rx = some msg ∧ parsedMsg rx' = some msg ∧
      msg.wire = trailingFrames.1 ∧ msg.wire ≠ trailingFrames.2 := by
  refine ⟨?_, ?_, ?_⟩
  · exact List.mem_singleton_self _
  · exact List.mem_singleton_self _
  · exact ⟨(rxPacket ⟨[2, 0, 0, 0, 0, 1], rfl⟩ trailingFrames.1 13).message, rfl, rfl, rfl,
      by decide⟩

/-- **Encoding undoes decoding up to the declared length.** A message parsed from a received frame,
written back in wire order, is the first `12 + payload_len` received bytes; it is all of them
exactly when the frame ends there. So two frames from one sender are parsed to the same message
exactly when they agree on these bytes. -/
theorem wire_of_received (src : Mac) (received : List UInt8) {rx : RxPacket}
    {msg : EdhocTransportMsg}
    (hrx : rx ∈ (espnowRecvCb (some (some src)) (some received) received.length .empty).items)
    (hmsg : parsedMsg rx = some msg) :
    msg.wire = received.take (12 + msg.payloadLen.toNat) ∧
    (msg.wire = received ↔ received.length = 12 + msg.payloadLen.toNat) ∧
    ∀ received' rx',
      rx' ∈ (espnowRecvCb (some (some src)) (some received') received'.length .empty).items →
      (parsedMsg rx' = some msg ↔ received'.take (12 + msg.payloadLen.toNat) =
        received.take (12 + msg.payloadLen.toNat)) := by
  obtain ⟨h250, rfl⟩ := mem_recvCb hrx
  obtain ⟨hg, rfl⟩ := parsedMsg_eq_some_iff.mp hmsg
  have hpay : (rxPacket src received received.length).message.payloadLen.toNat =
      (rxPacket src received received.length).payloadLen := EdhocTransportHdr.toNat_payloadLen _
  have hle : 12 + (rxPacket src received received.length).payloadLen ≤ received.length := by
    have hfits : 12 + ((rxPacket src received received.length).payloadLen : ℤ) ≤
      received.length := hg.payload
    omega
  have hwire := wire_message hg
  rw [take_rxPacket h250 hle] at hwire
  rw [hpay]
  refine ⟨hwire, ?_, fun received' rx' hrx' => ?_⟩
  · rw [hwire, List.take_eq_self_iff]
    omega
  obtain ⟨h250', rfl⟩ := mem_recvCb hrx'
  rw [parsedMsg_eq_some_iff]
  constructor
  · rintro ⟨hg', heq⟩
    have hpay' : (rxPacket src received' received'.length).payloadLen =
        (rxPacket src received received.length).payloadLen := by
      rw [← hpay, ← heq]
      exact (EdhocTransportHdr.toNat_payloadLen _).symm
    have hle' : 12 + (rxPacket src received received.length).payloadLen ≤ received'.length := by
      have hfits : 12 + ((rxPacket src received' received'.length).payloadLen : ℤ) ≤
        received'.length := hg'.payload
      omega
    have hwire' := wire_message hg'
    rw [hpay', take_rxPacket h250' hle', heq] at hwire'
    exact hwire'.symm.trans hwire
  · intro heq
    have hle' : 12 + (rxPacket src received received.length).payloadLen ≤ received'.length := by
      have hlen := congrArg List.length heq
      rw [List.length_take, List.length_take, Nat.min_eq_left hle] at hlen
      omega
    obtain ⟨hhdr, hm⟩ := RxPacket.message_congr (rxPacket src received received.length)
      (rxPacket src received' received'.length) rfl
      (by rw [take_rxPacket h250' hle', take_rxPacket h250 hle, heq])
    refine ⟨hg.of_ofBytes hhdr ?_, hm⟩
    change _ ≤ (received'.length : ℤ)
    omega

/-- A frame of 14 bytes with one payload byte gives back its first 13. -/
theorem wire_of_received_sample :
    let msg := (rxPacket ⟨[2, 0, 0, 0, 0, 1], rfl⟩ trailingFrames.2 14).message
    msg.wire = trailingFrames.1 ∧ msg.wire ≠ trailingFrames.2 := by
  obtain ⟨hwire, hall, -⟩ := wire_of_received ⟨[2, 0, 0, 0, 0, 1], rfl⟩ trailingFrames.2
    (List.mem_singleton_self _) rfl
  exact ⟨hwire, fun heq => absurd (hall.mp heq) (by decide)⟩

/-! ## The round trip -/

section RoundTrip

variable {type : UInt8} {sessionId seq : UInt16} {payload : List UInt8}

theorem inGrammar_frameBytes (type : UInt8) (sessionId seq : UInt16) (src : Mac)
    (hlen : payload.length ≤ 192) :
    let rx := rxPacket src (frameBytes type sessionId seq payload)
      (frameBytes type sessionId seq payload).length
    InGrammar rx ∧ rx.message =
      { srcMac := src, type := type, flags := 0, sessionId := sessionId, seq := seq, fragIdx := 0,
        fragCount := 1, payloadLen := UInt16.ofNat payload.length,
        payload := Bytes.fill 192 payload } :=
  parsedMsg_eq_some_iff.mp (parseRx_rxPacket src type sessionId seq hlen)

theorem inputSlice_payload (hpos : 0 < payload.length) (hlen : payload.length ≤ 192) :
    inputSlice (some (Bytes.fill 192 payload).toList) payload.length = .ok payload := by
  have hmax : ¬ (payload.length = 0 ∨ payload.length > maxEdhocMessageLen) := by
    unfold maxEdhocMessageLen
    omega
  simp only [inputSlice]
  rw [if_neg hmax, Bytes.take_toList_fill hlen]

theorem edhocTransportSend_oversized (res : EspNowRes) (peer : Option Mac)
    (ptr : Option (List UInt8)) {len : ℕ} (hlen : 192 < len) (n : EspNow) :
    (edhocTransportSend res peer type sessionId seq ptr len n).2 = none := by
  unfold edhocTransportSend
  split
  · rfl
  · rw [if_pos (show len > edhocTransportMaxPayloadLen from hlen)]

end RoundTrip

/-- **The frame round trip.** Every payload of at most 192 bytes passes the checks of the sender and
goes out in a frame of `12 + payload_len` bytes; a receiver of this frame that has room for it
queues a packet, which is parsed, whatever the message held before, to the fields and the payload
that were sent, and the Rust side takes back the payload unless it is empty. A longer payload is not
sent. -/
theorem frame_round_trip (res : EspNowRes) (peer src : Mac) (type : UInt8) (sessionId seq : UInt16)
    (ptr : Option (List UInt8)) (len : ℕ) (hptr : len ≤ (ptr.getD []).length) (n : EspNow) :
    let payload := (ptr.getD []).take len
    let sent := edhocTransportSend res (some peer) type sessionId seq ptr len n
    (len ≤ 192 → ∃ frame, sent = (res.send, some frame) ∧ frame.dest = peer ∧
      frame.data.length = 12 + len ∧ frame.data.length ≤ 250 ∧
      ∀ queue : RxQueue, ¬ queue.Full → ∃ rx,
        (espnowRecvCb (some (some src)) (some frame.data) frame.data.length queue).items =
          queue.items ++ [rx] ∧
        ∀ out, ∃ msg, edhocTransportParseRx (some rx) (some out) = (true, some msg) ∧
          msg.srcMac = src ∧ msg.type = type ∧ msg.sessionId = sessionId ∧ msg.seq = seq ∧
          msg.flags = 0 ∧ msg.fragIdx = 0 ∧ msg.fragCount = 1 ∧ msg.payloadLen.toNat = len ∧
          msg.payload.toList = payload ++ List.replicate (192 - len) 0 ∧
          (0 < len → inputSlice (some msg.payload.toList) msg.payloadLen.toNat = .ok payload)) ∧
    (192 < len → sent.2 = none) := by
  intro payload sent
  refine ⟨fun hlen => ?_, fun hlen => edhocTransportSend_oversized res _ ptr hlen n⟩
  have hpay : payload.length = len := by
    rw [List.length_take, Nat.min_eq_left hptr]
  have hsent : sent = (res.send,
      some ⟨peer, frameBytes type sessionId seq payload, n.peers peer, res.send⟩) := by
    cases ptr with
    | none =>
      have hzero : len = 0 := Nat.le_zero.mp hptr
      subst hzero
      exact edhocTransportSend_eq res peer type sessionId seq hlen hptr n
    | some buffer => exact edhocTransportSend_eq res peer type sessionId seq hlen hptr n
  have hwire : (frameBytes type sessionId seq payload).length = 12 + len := by
    rw [length_frameBytes, hpay]
    rfl
  refine ⟨_, hsent, rfl, hwire, by rw [hwire]; omega, fun queue hroom =>
    ⟨rxPacket src (frameBytes type sessionId seq payload)
      (frameBytes type sessionId seq payload).length, ?_, fun out => ?_⟩⟩
  · rw [espnowRecvCb_eq_push src (by rw [hwire]; omega) (by rw [hwire]; omega),
      BoundedQueue.items_push_of_not_full hroom]
  obtain ⟨hg, hmsg⟩ := inGrammar_frameBytes type sessionId seq src (hpay.trans_le hlen)
  have hnat : (UInt16.ofNat payload.length).toNat = len := by
    rw [UInt16.toNat_ofNat', hpay, Nat.mod_eq_of_lt (by omega)]
  refine ⟨_, parseRx_of_inGrammar hg, ?_⟩
  rw [hmsg]
  refine ⟨rfl, rfl, rfl, rfl, rfl, rfl, rfl, hnat, ?_, fun hpos => ?_⟩
  · rw [Bytes.toList_fill (hpay.trans_le hlen), hpay]
  · dsimp only
    rw [hnat, ← hpay]
    exact inputSlice_payload (hpos.trans_eq hpay.symm) (hpay.trans_le hlen)

theorem frame_round_trip_sample : ∃ frame,
    edhocTransportSend .ok (some ⟨[2, 0, 0, 0, 0, 2], rfl⟩) 0x77 0xFFFF 0xFFFF (some [1, 2, 3]) 3
      .init = (espOk, some frame) ∧ frame.data.length = 15 := by
  obtain ⟨frame, hsent, -, hlen, -⟩ := (frame_round_trip .ok ⟨[2, 0, 0, 0, 0, 2], rfl⟩
    ⟨[2, 0, 0, 0, 0, 1], rfl⟩ 0x77 0xFFFF 0xFFFF (some [1, 2, 3]) 3 (by decide) .init).1 (by decide)
  exact ⟨frame, hsent, hlen⟩

end EspNowEdhoc
