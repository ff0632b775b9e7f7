import EspNowEdhoc.Device.Task

/-!
# What the handler does with a message

* `awaited`: the type of message that a pairing state waits for; **`awaited_eq_some`**.
* `onAwaited`: the branch of `handle_received_message` for a type.
* **`handled`**: a message of another session fails the pairing, the awaited message goes to its
  branch, and any other message is ignored.
-/

set_option autoImplicit false

namespace EspNowEdhoc

variable {L : Lakers}

/-- The message type that a pairing state waits for. -/
def awaited : Role → PairingState → Option MsgType
  | .initiator, .waitM2 => some .m2
  | .initiator, .waitEdhocAck => some .ack
  | .initiator, .waitKeyTestAck => some .keyTestAck
  | .responder, .waitM1 => some .m1
  | .responder, .waitM3 => some .m3
  | .responder, .waitKeyTest => some .keyTest
  | _, _ => none

namespace MsgType

/-- The role that receives messages of a type. -/
def receiver : MsgType → Role
  | .m2 | .ack | .keyTestAck => .initiator
  | .m1 | .m3 | .keyTest => .responder

/-- The pairing state that waits for a type of message. -/
def waiting : MsgType → PairingState
  | .m1 => .waitM1
  | .m2 => .waitM2
  | .m3 => .waitM3
  | .ack => .waitEdhocAck
  | .keyTest => .waitKeyTest
  | .keyTestAck => .waitKeyTestAck

end MsgType

/-- **A type is awaited by one role in one state.** -/
theorem awaited_eq_some {role : Role} {state : PairingState} {t : MsgType} :
    awaited role state = some t ↔ role = t.receiver ∧ state = t.waiting := by
  cases role <;> cases state <;> cases t <;> decide

section Handled

variable (cfg : Config) (env : Env L) (msg : EdhocTransportMsg)

/-- The branch of the handler for an awaited type. -/
def onAwaited : MsgType → Device L → Device L
  | .m1 => onMessage1 cfg env msg
  | .m2 => onMessage2 cfg env msg
  | .m3 => onMessage3 cfg env msg
  | .ack => onHandshakeAck cfg env msg
  | .keyTest => onKeyTest cfg env msg
  | .keyTestAck => onKeyTestAck msg

variable {cfg env msg} {d : Device L} {t : MsgType}

theorem handleReceivedMessage_of_awaited (hsid : msg.sessionId = edhocSessionId)
    (ht : awaited cfg.role d.state = some t) (htype : msg.type = t.code) :
    handleReceivedMessage cfg env msg d = onAwaited cfg env msg t d := by
  obtain ⟨hrole, hs⟩ := awaited_eq_some.mp ht
  unfold handleReceivedMessage
  rw [if_neg (not_not.mpr hsid), hrole]
  cases t with
  | m1 | m2 => exact if_pos ⟨hs, htype⟩
  | m3 | ack =>
    dsimp only [MsgType.receiver]
    rw [if_neg (by rw [hs]; exact fun hb => by cases hb.1)]
    exact if_pos ⟨hs, htype⟩
  | keyTest | keyTestAck =>
    dsimp only [MsgType.receiver]
    rw [if_neg (by rw [hs]; exact fun hb => by cases hb.1),
      if_neg (by rw [hs]; exact fun hb => by cases hb.1)]
    exact if_pos ⟨hs, htype⟩

theorem handleReceivedMessage_of_not_awaited (hsid : msg.sessionId = edhocSessionId)
    (hawait : (awaited cfg.role d.state).map MsgType.code ≠ some msg.type) :
    handleReceivedMessage cfg env msg d = d := by
  have hne (t : MsgType) (ht : awaited cfg.role d.state = some t) : msg.type ≠ t.code := by
    rintro htype
    rw [ht, htype] at hawait
    exact hawait rfl
  unfold handleReceivedMessage
  rw [if_neg (not_not.mpr hsid)]
  split
  · next hrole =>
    rw [hrole] at hne
    split
    · next hb => exact absurd hb.2 (hne _ (by rw [hb.1]; rfl))
    split
    · next hb => exact absurd hb.2 (hne _ (by rw [hb.1]; rfl))
    split
    · next hb => exact absurd hb.2 (hne _ (by rw [hb.1]; rfl))
    · rfl
  · next hrole =>
    rw [hrole] at hne
    split
    · next hb => exact absurd hb.2 (hne _ (by rw [hb.1]; rfl))
    split
    · next hb => exact absurd hb.2 (hne _ (by rw [hb.1]; rfl))
    split
    · next hb => exact absurd hb.2 (hne _ (by rw [hb.1]; rfl))
    · rfl

/-- What the handler can do with a message. -/
inductive Handled (cfg : Config) (env : Env L) (msg : EdhocTransportMsg) (d d' : Device L) : Prop
  | rejected (hsid : msg.sessionId ≠ edhocSessionId) (hd : d' = failPairing d)
  | ignored (hsid : msg.sessionId = edhocSessionId)
      (hawait : (awaited cfg.role d.state).map MsgType.code ≠ some msg.type) (hd : d' = d)
  | accepted (t : MsgType) (hsid : msg.sessionId = edhocSessionId) (hrole : cfg.role = t.receiver)
      (hs : d.state = t.waiting) (htype : msg.type = t.code) (hd : d' = onAwaited cfg env msg t d)

/-- **Every message is handled in one of three ways.** -/
theorem handled (cfg : Config) (env : Env L) (msg : EdhocTransportMsg) (d : Device L) :
    Handled cfg env msg d (handleReceivedMessage cfg env msg d) := by
  by_cases hsid : msg.sessionId = edhocSessionId
  · by_cases hawait : (awaited cfg.role d.state).map MsgType.code = some msg.type
    · obtain ⟨t, ht, htype⟩ := Option.map_eq_some_iff.mp hawait
      obtain ⟨hrole, hs⟩ := awaited_eq_some.mp ht
      exact .accepted t hsid hrole hs htype.symm
        (handleReceivedMessage_of_awaited hsid ht htype.symm)
    · exact .ignored hsid hawait (handleReceivedMessage_of_not_awaited hsid hawait)
  · exact .rejected hsid (if_pos hsid)

end Handled

end EspNowEdhoc
