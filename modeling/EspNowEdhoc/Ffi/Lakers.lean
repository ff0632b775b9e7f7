import EspNowEdhoc.Lib.Bytes

/-!
# The Lakers library, as the FFI uses it

Lakers is a third-party crate: its typestates are arbitrary types and its operations partial
functions on them (`none` is an `EDHOCError`). `Rng` is what `esp_fill_random` delivers during one
call. The arguments that `lib.rs` never varies (`StatStat`, `CipherSuite2`, transfer by reference,
no EAD items, no chosen connection identifier) are part of the functions.

* `Lakers.processMessage2`, `Lakers.processMessage3`, `Lakers.respondMessage1`: the chains of
  Lakers calls inside one FFI call.
-/

namespace EspNowEdhoc

/-- The parts of Lakers that `lib.rs` calls. -/
structure Lakers where
  Rng : Type
  Credential : Type
  IdCred : Type
  /-- `BufferMessage1`, `BufferMessage2` and `BufferMessage3`. -/
  Buffer : Type
  EdhocInitiator : Type
  EdhocInitiatorWaitM2 : Type
  EdhocInitiatorProcessingM2 : Type
  EdhocInitiatorProcessedM2 : Type
  EdhocInitiatorWaitM4 : Type
  EdhocResponder : Type
  EdhocResponderProcessedM1 : Type
  EdhocResponderWaitM3 : Type
  EdhocResponderProcessingM3 : Type
  EdhocResponderProcessedM3 : Type
  /-- `LakersDone`. -/
  Done : Type
  newFromSlice : List UInt8 → Option Buffer
  asSlice : Buffer → List UInt8
  parseCcs : List UInt8 → Option Credential
  credentialCheckOrFetch : Credential → IdCred → Option Credential
  initiatorNew : Rng → EdhocInitiator
  setIdentity : EdhocInitiator → List UInt8 → Credential → EdhocInitiator
  prepareMessage1 : Rng → EdhocInitiator → Option (EdhocInitiatorWaitM2 × Buffer)
  parseMessage2 : EdhocInitiatorWaitM2 → Buffer → Option (EdhocInitiatorProcessingM2 × IdCred)
  verifyMessage2 : EdhocInitiatorProcessingM2 → Credential → Option EdhocInitiatorProcessedM2
  prepareMessage3 : EdhocInitiatorProcessedM2 → Option (EdhocInitiatorWaitM4 × Buffer)
  initiatorCompletedWithoutMessage4 : EdhocInitiatorWaitM4 → Option Done
  responderNew : Rng → List UInt8 → Credential → EdhocResponder
  processMessage1 : EdhocResponder → Buffer → Option EdhocResponderProcessedM1
  prepareMessage2 : Rng → EdhocResponderProcessedM1 → Option (EdhocResponderWaitM3 × Buffer)
  parseMessage3 : EdhocResponderWaitM3 → Buffer → Option (EdhocResponderProcessingM3 × IdCred)
  verifyMessage3 : EdhocResponderProcessingM3 → Credential → Option EdhocResponderProcessedM3
  responderCompletedWithoutMessage4 : EdhocResponderProcessedM3 → Option Done
  /-- Label, context and output length. The receiver is `&mut` for the crypto backend only, whose
  state is the unit struct `EspRng`. -/
  edhocExporter : Done → UInt8 → List UInt8 → (n : ℕ) → Bytes n

/-- `CRED_I`. -/
def credI : List UInt8 := [
  0xA2, 0x02, 0x77, 0x34, 0x32, 0x2D, 0x35, 0x30, 0x2D, 0x33, 0x31, 0x2D,
  0x46, 0x46, 0x2D, 0x45, 0x46, 0x2D, 0x33, 0x37, 0x2D, 0x33, 0x32, 0x2D,
  0x33, 0x39, 0x08, 0xA1, 0x01, 0xA5, 0x01, 0x02, 0x02, 0x41, 0x2B, 0x20,
  0x01, 0x21, 0x58, 0x20, 0xAC, 0x75, 0xE9, 0xEC, 0xE3, 0xE5, 0x0B, 0xFC,
  0x8E, 0xD6, 0x03, 0x99, 0x88, 0x95, 0x22, 0x40, 0x5C, 0x47, 0xBF, 0x16,
  0xDF, 0x96, 0x66, 0x0A, 0x41, 0x29, 0x8C, 0xB4, 0x30, 0x7F, 0x7E, 0xB6,
  0x22, 0x58, 0x20, 0x6E, 0x5D, 0xE6, 0x11, 0x38, 0x8A, 0x4B, 0x8A, 0x82,
  0x11, 0x33, 0x4A, 0xC7, 0xD3, 0x7E, 0xCB, 0x52, 0xA3, 0x87, 0xD2, 0x57,
  0xE6, 0xDB, 0x3C, 0x2A, 0x93, 0xDF, 0x21, 0xFF, 0x3A, 0xFF, 0xC8]

/-- `INITIATOR_PRIVATE`. -/
def initiatorPrivate : List UInt8 := [
  0xFB, 0x13, 0xAD, 0xEB, 0x65, 0x18, 0xCE, 0xE5, 0xF8, 0x84, 0x17, 0x66,
  0x08, 0x41, 0x14, 0x2E, 0x83, 0x0A, 0x81, 0xFE, 0x33, 0x43, 0x80, 0xA9,
  0x53, 0x40, 0x6A, 0x13, 0x05, 0xE8, 0x70, 0x6B]

/-- `CRED_R`. -/
def credR : List UInt8 := [
  0xA2, 0x02, 0x60, 0x08, 0xA1, 0x01, 0xA5, 0x01, 0x02, 0x02, 0x41, 0x0A,
  0x20, 0x01, 0x21, 0x58, 0x20, 0xBB, 0xC3, 0x49, 0x60, 0x52, 0x6E, 0xA4,
  0xD3, 0x2E, 0x94, 0x0C, 0xAD, 0x2A, 0x23, 0x41, 0x48, 0xDD, 0xC2, 0x17,
  0x91, 0xA1, 0x2A, 0xFB, 0xCB, 0xAC, 0x93, 0x62, 0x20, 0x46, 0xDD, 0x44,
  0xF0, 0x22, 0x58, 0x20, 0x45, 0x19, 0xE2, 0x57, 0x23, 0x6B, 0x2A, 0x0C,
  0xE2, 0x02, 0x3F, 0x09, 0x31, 0xF1, 0xF3, 0x86, 0xCA, 0x7A, 0xFD, 0xA6,
  0x4F, 0xCD, 0xE0, 0x10, 0x8C, 0x22, 0x4C, 0x51, 0xEA, 0xBF, 0x60, 0x72]

/-- `RESPONDER_PRIVATE`. -/
def responderPrivate : List UInt8 := [
  0x72, 0xCC, 0x47, 0x61, 0xDB, 0xD4, 0xC7, 0x8F, 0x75, 0x89, 0x31, 0xAA,
  0x58, 0x9D, 0x34, 0x8D, 0x1E, 0xF8, 0x74, 0xA7, 0xE3, 0x03, 0xED, 0xE2,
  0xF1, 0x40, 0xDC, 0xF3, 0xE6, 0xAA, 0x4A, 0xAC]

namespace Lakers

variable (L : Lakers)

/-- `parse_initiator_credential`; the caller gives the error its code. -/
def parseInitiatorCredential : Option L.Credential := L.parseCcs credI

/-- `parse_responder_credential`; the caller gives the error its code. -/
def parseResponderCredential : Option L.Credential := L.parseCcs credR

/-- The `process_message_1(..).and_then(..)` of `lakers_edhoc_process_message_1`. -/
def respondMessage1 (rng : L.Rng) (responder : L.EdhocResponder) (message1 : L.Buffer) :
    Option (L.EdhocResponderWaitM3 × L.Buffer) := do
  let processedM1 ← L.processMessage1 responder message1
  L.prepareMessage2 rng processedM1

/-- The closure of `lakers_edhoc_process_message_2`. -/
def processMessage2 (waitM2 : L.EdhocInitiatorWaitM2) (message2 : L.Buffer) :
    Option (L.Done × L.Buffer) := do
  let (processingM2, idCredR) ← L.parseMessage2 waitM2 message2
  let expectedR ← L.parseResponderCredential
  let validR ← L.credentialCheckOrFetch expectedR idCredR
  let processedM2 ← L.verifyMessage2 processingM2 validR
  let (waitM4, message3) ← L.prepareMessage3 processedM2
  let done ← L.initiatorCompletedWithoutMessage4 waitM4
  return (done, message3)

/-- The closure of `lakers_edhoc_process_message_3`. -/
def processMessage3 (waitM3 : L.EdhocResponderWaitM3) (message3 : L.Buffer) : Option L.Done := do
  let (processingM3, idCredI) ← L.parseMessage3 waitM3 message3
  let expectedI ← L.parseInitiatorCredential
  let validI ← L.credentialCheckOrFetch expectedI idCredI
  let processedM3 ← L.verifyMessage3 processingM3 validI
  L.responderCompletedWithoutMessage4 processedM3

/-- A toy Lakers. A side draws a byte `x` or `y` when it is made, the messages are `1 x`, `2 y` and
`3 x y`, and nothing else is accepted; PRK_out is `(x, y)`. The exporter writes it before the label
and the end of the context. -/
def sample : Lakers where
  Rng := UInt8
  Credential := Unit
  IdCred := Unit
  Buffer := List UInt8
  EdhocInitiator := UInt8
  EdhocInitiatorWaitM2 := UInt8
  EdhocInitiatorProcessingM2 := UInt8 × UInt8
  EdhocInitiatorProcessedM2 := UInt8 × UInt8
  EdhocInitiatorWaitM4 := UInt8 × UInt8
  EdhocResponder := UInt8
  EdhocResponderProcessedM1 := UInt8 × UInt8
  EdhocResponderWaitM3 := UInt8 × UInt8
  EdhocResponderProcessingM3 := UInt8 × UInt8
  EdhocResponderProcessedM3 := UInt8 × UInt8
  Done := UInt8 × UInt8
  newFromSlice b := if b.length ≤ 192 then some b else none
  asSlice b := b
  parseCcs _ := some ()
  credentialCheckOrFetch _ _ := some ()
  initiatorNew x := x
  setIdentity x _ _ := x
  prepareMessage1 _ x := some (x, [1, x])
  parseMessage2 x m := if m.dropLast = [2] then some ((x, m.getLastD 0), ()) else none
  verifyMessage2 prk _ := some prk
  prepareMessage3 prk := some (prk, [3, prk.1, prk.2])
  initiatorCompletedWithoutMessage4 prk := some prk
  responderNew y _ _ := y
  processMessage1 y m := if m.dropLast = [1] then some (m.getLastD 0, y) else none
  prepareMessage2 _ prk := some (prk, [2, prk.2])
  parseMessage3 prk m := if m = [3, prk.1, prk.2] then some (prk, ()) else none
  verifyMessage3 prk _ := some prk
  responderCompletedWithoutMessage4 prk := some prk
  edhocExporter prk label context n := Bytes.fill n (prk.1 :: prk.2 :: label :: context.drop 14)

end Lakers

end EspNowEdhoc
