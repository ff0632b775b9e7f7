import EspNowEdhoc.Transport.EspNow

/-!
# The receive path

The driver's task calls `espnow_recv_cb`, the application task polls `espnow_transport_recv`, and
the FreeRTOS queue lies between them.

* `Arrival`: the source and the bytes of a call that is not turned down, and the packet it stands
  for.
* **`receive_path_fifo`**: the packets polled and those still queued are the arrivals that found
  room.
-/

namespace EspNowEdhoc

open Runs

/-- A call of `espnow_recv_cb`. The driver passes `data_len` readable bytes. -/
structure RecvCall where
  recvInfo : Option (Option Mac)
  data : Option (List UInt8)
  dataLen : ℤ
  readable : ∀ bytes, data = some bytes → dataLen ≤ bytes.length

/-- A call of the driver's task, or a poll of the application task. -/
inductive RxOp
  | recvCb (call : RecvCall)
  | poll

/-- The receive queue, and the packets the application task has been given. -/
abbrev RxState : Type := BoundedQueue.Server RxPacket espnowTransportRxQueueLen

def rxStep (s : RxState) : RxOp → RxState
  | .recvCb call =>
    { s with queue := espnowRecvCb call.recvInfo call.data call.dataLen s.queue }
  | .poll =>
    match espnowTransportRecv s.queue with
    | none => s
    | some (rx, queue) => ⟨queue, s.taken ++ [rx]⟩

/-! ## Arrivals -/

/-- A source and the received bytes, of which there are 1 to 250. -/
structure Arrival where
  src : Mac
  bytes : List UInt8
  pos : 0 < bytes.length
  le : bytes.length ≤ 250

theorem Arrival.length_padded (a : Arrival) :
    (a.bytes ++ List.replicate (250 - a.bytes.length) 0).length = 250 := by
  have hle := a.le
  rw [List.length_append, List.length_replicate]
  omega

def Arrival.packet (a : Arrival) : RxPacket :=
  ⟨a.src, ⟨a.bytes ++ List.replicate (250 - a.bytes.length) 0, a.length_padded⟩, a.bytes.length⟩

theorem length_take_readable {bytes : List UInt8} {dataLen : ℤ} (hread : dataLen ≤ bytes.length)
    (hlen : 1 ≤ dataLen ∧ dataLen ≤ 250) :
    ((bytes.take dataLen.toNat).length : ℤ) = dataLen ∧
      0 < (bytes.take dataLen.toNat).length ∧ (bytes.take dataLen.toNat).length ≤ 250 := by
  rw [List.length_take]
  omega

/-- What arrives with a call: nothing if an argument is null or the length is not 1 to 250. -/
def RecvCall.arrival? : RecvCall → Option Arrival
  | ⟨some (some src), some bytes, dataLen, readable⟩ =>
    if hlen : 1 ≤ dataLen ∧ dataLen ≤ 250 then
      some ⟨src, bytes.take dataLen.toNat, (length_take_readable (readable bytes rfl) hlen).2.1,
        (length_take_readable (readable bytes rfl) hlen).2.2⟩
    else none
  | _ => none

/-- The receive path as a queue of packets. -/
def RxOp.toOp? : RxOp → Option (BoundedQueue.Op RxPacket)
  | .recvCb call => call.arrival?.map fun a => .push a.packet
  | .poll => some .pop

/-! ## The queue of arrivals -/

theorem espnowRecvCb_of_none {call : RecvCall} (h : call.arrival? = none) (queue : RxQueue) :
    espnowRecvCb call.recvInfo call.data call.dataLen queue = queue := by
  obtain ⟨_ | _ | src, _ | bytes, dataLen, readable⟩ := call
  · rfl
  · rfl
  · rfl
  · rfl
  · rfl
  · simp only [RecvCall.arrival?] at h
    split at h
    · cases h
    · next hlen =>
      simp only [espnowRecvCb]
      split
      · rfl
      · rw [if_pos (by unfold espnowTransportMaxPayloadLen; omega)]

theorem espnowRecvCb_of_some {call : RecvCall} {a : Arrival} (h : call.arrival? = some a)
    (queue : RxQueue) :
    espnowRecvCb call.recvInfo call.data call.dataLen queue = queue.push a.packet := by
  obtain ⟨_ | _ | src, _ | bytes, dataLen, readable⟩ := call
  · cases h
  · cases h
  · cases h
  · cases h
  · cases h
  · simp only [RecvCall.arrival?] at h
    split at h
    · next hlen =>
      cases h
      obtain ⟨heq, -, hle⟩ := length_take_readable (readable bytes rfl) hlen
      have hpacket : rxPacket src bytes dataLen = Arrival.packet ⟨src, bytes.take dataLen.toNat,
          (length_take_readable (readable bytes rfl) hlen).2.1, hle⟩ := by
        simp only [rxPacket, Arrival.packet, heq]
        congr 1
        exact Subtype.ext (Bytes.toList_fill hle)
      simp only [espnowRecvCb]
      rw [if_neg (by omega), if_neg (by unfold espnowTransportMaxPayloadLen; omega), hpacket]
    · cases h

/-- **The two tasks run a bounded queue of packets.** -/
theorem rxStep_run (s : RxState) (ops : List RxOp) :
    run rxStep s ops = run BoundedQueue.Server.step s (ops.filterMap RxOp.toOp?) := by
  induction ops generalizing s with
  | nil => rfl
  | cons op ops ih =>
    rw [run_cons, ih]
    cases op with
    | recvCb call =>
      cases h : call.arrival? with
      | none =>
        have hop : RxOp.toOp? (.recvCb call) = none := by rw [RxOp.toOp?, h]; rfl
        rw [List.filterMap_cons_none hop, rxStep, espnowRecvCb_of_none h]
      | some a =>
        have hop : RxOp.toOp? (.recvCb call) = some (.push a.packet) := by rw [RxOp.toOp?, h]; rfl
        rw [List.filterMap_cons_some hop, run_cons, rxStep, espnowRecvCb_of_some h]
        rfl
    | poll =>
      have hstep : rxStep s .poll = s.step .pop := by
        simp only [rxStep, espnowTransportRecv, BoundedQueue.Server.step]
        cases s.queue.pop <;> rfl
      have hop : RxOp.toOp? .poll = some .pop := rfl
      rw [List.filterMap_cons_some hop, run_cons, hstep]

/-- **The receive path is a bounded FIFO that drops only when it is full.** Over any interleaving of
callbacks and polls, the packets polled, followed by those still queued, are in order and byte for
byte the packets of the arrivals that came while fewer than ten packets were pending. -/
theorem receive_path_fifo (ops : List RxOp) :
    let s := run rxStep .init ops
    s.taken ++ s.queue.items =
      BoundedQueue.admitted espnowTransportRxQueueLen 0 (ops.filterMap RxOp.toOp?) := by
  intro s
  rw [show s = _ from rxStep_run .init ops, BoundedQueue.taken_append_items]
  rfl

end EspNowEdhoc
